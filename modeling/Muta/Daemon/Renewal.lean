import Muta.Daemon.Agreement

/-!
# Renewed leases

A lease for the address of the live tunnel counts as a renewal and changes nothing. So the
tunnel stands for the last lease bound exactly as long as renewals repeat everything else a
tunnel is made from: a new router, netmask, resolver, domain or MTU is not taken over.
-/

namespace Muta.Daemon

open Act Netstack Tun Link Tunnel
set_option autoImplicit false

namespace Session

/-- The live tunnel and the status are those of `lease`. -/
def Reflects (s : Session) (lease : Lease) : Prop :=
  ∃ t gateway, s.tunnel = some t ∧ network t.lease = network lease ∧
    Serves s.system.host t lease gateway ∧
    ∀ st, s.system.status = some st →
      st.address = some lease.ip ∧ st.gateway = lease.router ∧ st.dns = lease.dns

/-- If `lease` keeps the address of the live tunnel, it keeps the rest too. -/
def Repeats (s : Session) (lease : Lease) : Prop :=
  ∀ t, s.tunnel = some t → t.lease.ip = lease.ip → network t.lease = network lease

def Upright (s : Session) : Prop := ∀ t, s.tunnel = some t → s.Reflects t.lease

section Events

variable {o : Outcomes} {s u : Session} {lease : Lease} {event : Option LinkEvent}

theorem raised_reflects {gateway : Ipv4Addr} (h : lease.router = some gateway) :
    (s.raised o lease gateway).Reflects lease := by
  refine ⟨_, gateway, rfl, rfl, made_serves h, ?_⟩
  intro st hst
  obtain ⟨old, _, rfl⟩ := Option.map_eq_some_iff.mp hst
  exact ⟨rfl, rfl, rfl⟩

theorem Reflects.congr {lease' : Lease} (h : s.Reflects lease)
    (hsame : network lease = network lease') : s.Reflects lease' := by
  obtain ⟨t, gateway, ht, hlease, hserves, hstatus⟩ := h
  refine ⟨t, gateway, ht, hlease.trans hsame, hserves.congr hsame, ?_⟩
  intro st hst
  simp only [network, Prod.mk.injEq] at hsame
  rw [← hsame.1, ← hsame.2.2.1, ← hsame.2.2.2.1]
  exact hstatus st hst

theorem Reflects.repeats (h : s.Reflects lease) : s.Repeats lease := by
  intro t ht _
  obtain ⟨t', _, ht', hlease, _⟩ := h
  rw [ht] at ht'
  cases ht'
  exact hlease

theorem handleEvent_renewed {t : Tunnel} (ht : s.tunnel = some t) (hip : t.lease.ip = lease.ip) :
    handleEvent o (some (.bound lease)) s = (.ok (), s) := by
  simp [handleEvent, bind_apply, ht, hip]

theorem Handled.upright (hhandled : Handled o s event u) (h : s.Upright) : u.Upright := by
  cases hhandled with
  | nothing => exact h
  | renewed => exact h
  | rebuilt _ hrouter =>
    intro t ht
    cases ht
    exact raised_reflects hrouter

theorem Upright.counted (h : s.Upright) (tick : Tick) : (s.counted tick).Upright := by
  intro t ht
  obtain ⟨t', gateway, ht', hlease, hserves, hstatus⟩ := h t ht
  refine ⟨t', gateway, ht', hlease, hserves, ?_⟩
  intro st hst
  obtain ⟨old, hold, rfl⟩ := Option.map_eq_some_iff.mp hst
  exact hstatus old hold

theorem Handled.reflects_iff (hhandled : Handled o s (some (.bound lease)) u) (h : s.Upright) :
    u.Reflects lease ↔ s.Repeats lease := by
  cases hhandled with
  | @renewed _ t ht hip =>
    constructor
    · intro hreflects
      exact hreflects.repeats
    · intro hrepeats
      exact (h t ht).congr (hrepeats t ht hip)
  | rebuilt hother hrouter =>
    refine iff_of_true (raised_reflects hrouter) ?_
    intro t ht hip
    exact absurd hip (hother t ht)

end Events

end Session

section Run

variable {h : Host} {served : Bool} {past : List (Phase × Input)} {p : Phase}

theorem step_tethering {i : Input} {s : Session} (hstep : step p i = .tethering s) :
    s.tunnel = none ∨ (∃ r t, p = .tethering r ∧ Session.body t r = (.ok (), s)) ∨
      p = .tethering s := by
  cases p with
  | scanning y =>
    cases i with
    | tick t => cases hstep
    | poll requested scan =>
      cases requested with
      | true => cases hstep
      | false =>
        cases scan with
        | idle => cases hstep
        | failed => cases hstep
        | found info opened =>
          cases opened with
          | none => cases hstep
          | some now =>
            cases hstep
            exact .inl rfl
  | tethering r =>
    cases i with
    | poll requested scan => exact .inr (.inr hstep)
    | tick t =>
      rcases hbody : Session.body t r with ⟨e | _, u⟩
      · rw [step, hbody] at hstep
        dsimp only [afterSession] at hstep
        split at hstep <;> cases hstep
      · rw [step, hbody] at hstep
        cases hstep
        exact .inr (.inl ⟨r, t, rfl, hbody⟩)
  | returned y => cases hstep
  | panicked y => cases hstep

theorem step_upright {i : Input} {s : Session} (hsound : Sound served p)
    (h : ∀ r, p = .tethering r → r.Upright) (hstep : step p i = .tethering s) : s.Upright := by
  rcases step_tethering hstep with hnone | ⟨r, t, rfl, hbody⟩ | hsame
  · intro t ht
    rw [hnone] at ht
    cases ht
  · obtain ⟨u, hhandled, hs⟩ :=
      (wp_iff.mp (Session.wp_body (Session.Head.toConsistent hsound))).1 () s hbody
    have hu := hhandled.upright (h r rfl)
    rcases hs with rfl | rfl
    · exact hu
    · exact hu.counted t
  · exact h s hsame

theorem run_upright (hrun : Machine.Run (run h served) Machine.any past p) :
    Sound served p ∧ ∀ s, p = .tethering s → s.Upright := by
  refine ⟨run_sound hrun, ?_⟩
  induction hrun with
  | start =>
    intro s hs
    cases hs
  | take i hrun _ ih =>
    intro s hs
    exact step_upright (run_sound hrun) ih hs

def Binds (s : Session) (t : Tick) (lease : Lease) (u : Session) : Prop :=
  t.requested = false ∧ t.event = some (.bound lease) ∧
    Session.handleEvent t.outcomes t.event s = (.ok (), u)

/-- Along every run, the leases bound are reflected exactly if the renewals among them
repeat what they renew. -/
theorem leases_reflected_iff (hrun : Machine.Run (run h served) Machine.any past p) :
    (∀ s t lease u, (.tethering s, .tick t) ∈ past → Binds s t lease u → u.Reflects lease) ↔
      ∀ s t lease, (.tethering s, .tick t) ∈ past → t.requested = false →
        t.event = some (.bound lease) → s.Repeats lease := by
  have hstate : ∀ s i, (.tethering s, i) ∈ past → s.Consistent served ∧ s.Upright := by
    intro s i hmem
    obtain ⟨before, after, rfl⟩ := List.append_of_mem hmem
    have hbefore := run_upright hrun.before.1
    exact ⟨hbefore.1.toConsistent, hbefore.2 s rfl⟩
  constructor
  · intro hall s t lease hmem hrequested hevent t' ht' hip
    have hhandled := Session.handleEvent_renewed (o := t.outcomes) ht' hip
    have hreflects := hall s t lease s hmem ⟨hrequested, hevent, hevent ▸ hhandled⟩
    have hiff := (Session.Handled.renewed (o := t.outcomes) ht' hip).reflects_iff (hstate s _ hmem).2
    exact hiff.mp hreflects t' ht' hip
  · intro hrepeats s t lease u hmem hbinds
    obtain ⟨hrequested, hevent, hhandle⟩ := hbinds
    obtain ⟨hconsistent, hupright⟩ := hstate s _ hmem
    have hhandled := (wp_iff.mp (Session.wp_handleEvent hconsistent)).1 () u hhandle
    rw [hevent] at hhandled
    exact (hhandled.reflects_iff hupright).mpr (hrepeats s t lease hmem hrequested hevent)

end Run

def plugged : Session :=
  Session.start ⟨bareHost, some { device := some phoneInfo.label }, []⟩ 0

def online : Session := plugged.lowered.raised smooth phoneLease ⟨192, 168, 42, 129⟩

/-- A phone that is plugged in, binds a lease and then another one. -/
def bindTwice (lease : Lease) : List Input :=
  [.poll false (.found phoneInfo (some 0)), .tick (quietTick (some (.bound phoneLease))),
    .tick (quietTick (some (.bound lease)))]

theorem trace_bindTwice (lease : Lease) :
    (run bareHost true).trace (run bareHost true).start (bindTwice lease) =
      [((run bareHost true).start, .poll false (.found phoneInfo (some 0))),
        (.tethering plugged, .tick (quietTick (some (.bound phoneLease)))),
        (.tethering online, .tick (quietTick (some (.bound lease))))] := rfl

theorem mem_bindTwice {lease bound : Lease} {s : Session} {t : Tick}
    (hmem : (.tethering s, .tick t) ∈
      (run bareHost true).trace (run bareHost true).start (bindTwice lease))
    (hevent : t.event = some (.bound bound)) : s = plugged ∨ s = online ∧ bound = lease := by
  rw [trace_bindTwice] at hmem
  simp only [List.mem_cons, List.not_mem_nil, or_false] at hmem
  rcases hmem with hmem | hmem | hmem
  · cases hmem
  · cases hmem
    exact .inl rfl
  · cases hmem
    cases hevent
    exact .inr ⟨rfl, rfl⟩

theorem leases_reflected_repeated :
    Binds online (quietTick (some (.bound phoneLease))) phoneLease online ∧
      online.Reflects phoneLease := by
  have hbinds : Binds online (quietTick (some (.bound phoneLease))) phoneLease online :=
    ⟨rfl, rfl, Session.handleEvent_renewed rfl rfl⟩
  have hrun := Machine.Run.takeAll (m := run bareHost true) (bindTwice phoneLease) .start
  refine ⟨hbinds, (leases_reflected_iff hrun).mpr ?_ online _ phoneLease online ?_ hbinds⟩
  · intro s t lease hmem _ hevent t' ht' _
    rcases mem_bindTwice hmem hevent with rfl | ⟨rfl, rfl⟩
    · cases ht'
    · cases ht'
      rfl
  · rw [List.nil_append, trace_bindTwice]
    simp

def renewedLease : Lease := { phoneLease with dns := [⟨1, 1, 1, 1⟩] }

theorem renewed_resolver_ignored :
    ∃ past p s t u, Machine.Run (run bareHost true) Machine.any past p ∧
      (.tethering s, .tick t) ∈ past ∧ Binds s t renewedLease u ∧ ¬ u.Reflects renewedLease := by
  refine ⟨_, _, online, quietTick (some (.bound renewedLease)), online,
    Machine.Run.start.takeAll (bindTwice renewedLease), ?_, ⟨rfl, rfl, ?_⟩, ?_⟩
  · rw [List.nil_append, trace_bindTwice]
    simp
  · exact Session.handleEvent_renewed rfl rfl
  · intro hreflects
    have hsame := hreflects.repeats _ rfl rfl
    simp [network, renewedLease, Tunnel.made, phoneLease] at hsame

end Muta.Daemon
