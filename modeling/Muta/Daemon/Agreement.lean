import Muta.Daemon.Session

/-!
# Sink, tunnel and status

At the head of the session's loop the three records that a tunnel is up agree. In between
they are brought up to date one after the other; the log shows that packets never go to a
device whose tunnel is down, and that nothing depends on a link when its threads are stopped.
-/

namespace Muta.Daemon

open Act Netstack Tun Link
set_option autoImplicit false

def attached (log : List Action) : Option Nat :=
  log.foldl (fun sink a =>
    match a with
    | .attach device => some device
    | .detach => none
    | _ => sink) none

/-- Packets go nowhere, and every tunnel that came up is down. -/
def Quiet (log : List Action) : Prop := attached log = none ∧ ∀ d, .up d ∈ log → .drop d ∈ log

structure Ordered (log : List Action) : Prop where
  /-- At no point do packets go to a device whose tunnel is not up. -/
  live : ∀ before, before <+: log → ∀ d, attached before = some d →
    .up d ∈ before ∧ .drop d ∉ before
  /-- The threads of a link are stopped only when nothing depends on them. -/
  stopped : ∀ before, before ++ [.stopThreads] <+: log → Quiet before

theorem attached_concat (log : List Action) (a : Action) :
    attached (log ++ [a]) =
      match a with
      | .attach device => some device
      | .detach => none
      | _ => attached log := by
  simp only [attached, List.foldl_append, List.foldl_cons, List.foldl_nil]

theorem Ordered.concat {log : List Action} {a : Action} (h : Ordered log)
    (hlive : ∀ d, attached (log ++ [a]) = some d → .up d ∈ log ++ [a] ∧ .drop d ∉ log ++ [a])
    (hstopped : a = .stopThreads → Quiet log) : Ordered (log ++ [a]) := by
  constructor
  · intro before hbefore
    rcases List.prefix_concat_iff.mp hbefore with rfl | hbefore
    · exact hlive
    · exact h.live before hbefore
  · intro before hbefore
    rcases List.prefix_concat_iff.mp hbefore with heq | hbefore
    · obtain ⟨rfl, ha⟩ := List.append_inj' heq rfl
      exact hstopped (List.singleton_inj.mp ha).symm
    · exact h.stopped before hbefore

structure Tracked (live : Option Nat) (y : System) : Prop where
  ordered : Ordered y.log
  up : ∀ d, live = some d → .up d ∈ y.log ∧ .drop d ∉ y.log
  down : ∀ d, .up d ∈ y.log → live = some d ∨ .drop d ∈ y.log
  opened : ∀ d, .up d ∈ y.log ∨ .drop d ∈ y.log → d < y.host.opened
  attached : ∀ d, attached y.log = some d → live = some d

namespace Tracked

variable {y : System} {live : Option Nat} {d : Nat}

theorem attached_none (h : Tracked none y) : Daemon.attached y.log = none := by
  cases ha : Daemon.attached y.log with
  | none => rfl
  | some d => cases h.attached d ha

theorem quiet (h : Tracked none y) : Quiet y.log :=
  ⟨h.attached_none, fun d hd => (h.down d hd).resolve_left (by simp)⟩

theorem congr {z : System} (h : Tracked live y) (hlog : z.log = y.log)
    (hopened : y.host.opened ≤ z.host.opened) : Tracked live z where
  ordered := hlog ▸ h.ordered
  up := hlog ▸ h.up
  down := hlog ▸ h.down
  opened := fun d hd => Nat.lt_of_lt_of_le (h.opened d (hlog ▸ hd)) hopened
  attached := hlog ▸ h.attached

/-- An action that neither raises nor drops a tunnel. -/
theorem record {a : Action} (h : Tracked live y) (hup : ∀ d, a ≠ .up d) (hdrop : ∀ d, a ≠ .drop d)
    (hattached : ∀ d, Daemon.attached (y.log ++ [a]) = some d → live = some d)
    (hstopped : a = .stopThreads → live = none) : Tracked live (y.record a) := by
  have hmem : ∀ {b}, b ≠ a → (b ∈ (y.record a).log ↔ b ∈ y.log) := by
    intro b hb
    simp [System.record, hb]
  have hup' := fun d => hmem (hup d).symm
  have hdrop' := fun d => hmem (hdrop d).symm
  constructor
  · apply h.ordered.concat
    · intro d hd
      have hd := h.up d (hattached d hd)
      exact ⟨(hup' d).mpr hd.1, (hdrop' d).not.mpr hd.2⟩
    · intro ha
      have hlive := hstopped ha
      subst hlive
      exact h.quiet
  · intro d hd
    exact ⟨(hup' d).mpr (h.up d hd).1, (hdrop' d).not.mpr (h.up d hd).2⟩
  · intro d hd
    exact (h.down d ((hup' d).mp hd)).imp_right (hdrop' d).mpr
  · intro d hd
    exact h.opened d (hd.imp (hup' d).mp (hdrop' d).mp)
  · exact hattached

theorem recordDetach (h : Tracked live y) : Tracked live (y.record .detach) := by
  apply h.record
  · intro d hd
    cases hd
  · intro d hd
    cases hd
  · intro d hd
    rw [attached_concat] at hd
    cases hd
  · intro hd
    cases hd

theorem recordAttach (h : Tracked (some d) y) : Tracked (some d) (y.record (.attach d)) := by
  apply h.record
  · intro e he
    cases he
  · intro e he
    cases he
  · intro e he
    rw [attached_concat] at he
    exact he
  · intro ha
    cases ha

theorem recordEnd {a : Action} (h : Tracked none y) (ha : a = .halt ∨ a = .stopThreads) :
    Tracked none (y.record a) := by
  apply h.record
  · intro d hd
    simp [hd] at ha
  · intro d hd
    simp [hd] at ha
  · intro d hd
    apply h.attached
    rcases ha with rfl | rfl
    · rw [attached_concat] at hd
      exact hd
    · rw [attached_concat] at hd
      exact hd
  · intro _
    rfl

theorem recordUp {h : Host} (htracked : Tracked none y) (hopened : h.opened = y.host.opened + 1) :
    Tracked (some y.host.opened) ({ y with host := h }.record (.up y.host.opened)) := by
  have hfresh : ∀ d, .up d ∈ y.log ∨ .drop d ∈ y.log → d ≠ y.host.opened :=
    fun d hd => Nat.ne_of_lt (htracked.opened d hd)
  have hattached : Daemon.attached (y.log ++ [.up y.host.opened]) = none := by
    rw [attached_concat]
    exact htracked.attached_none
  constructor
  · apply htracked.ordered.concat
    · intro d hd
      rw [hattached] at hd
      cases hd
    · intro ha
      cases ha
  · intro d hd
    cases hd
    refine ⟨by simp [System.record], ?_⟩
    intro hdrop
    exact hfresh _ (.inr (by simpa [System.record] using hdrop)) rfl
  · intro d hd
    rcases List.mem_append.mp hd with hd | hd
    · exact .inr (List.mem_append_left _ ((htracked.down d hd).resolve_left (by simp)))
    · cases List.mem_singleton.mp hd
      exact .inl rfl
  · intro d hd
    show d < h.opened
    rw [hopened]
    by_cases hd' : d = y.host.opened
    · omega
    · have hold := htracked.opened d (by simpa [System.record, hd'] using hd)
      omega
  · intro d hd
    rw [System.record, hattached] at hd
    cases hd

/-- The tunnel that is up goes down, once packets no longer go to it. -/
theorem recordDrop {h : Host} (htracked : Tracked (some d) y)
    (hdetached : Daemon.attached y.log = none) (hopened : h.opened = y.host.opened) :
    Tracked none ({ y with host := h }.record (.drop d)) := by
  have hattached : Daemon.attached (y.log ++ [.drop d]) = none := by
    rw [attached_concat]
    exact hdetached
  constructor
  · apply htracked.ordered.concat
    · intro e he
      rw [hattached] at he
      cases he
    · intro ha
      cases ha
  · intro e he
    cases he
  · intro e he
    have he : .up e ∈ y.log := by simpa [System.record] using he
    rcases htracked.down e he with heq | hdrop
    · cases heq
      exact .inr (by simp [System.record])
    · exact .inr (List.mem_append_left _ hdrop)
  · intro e he
    show e < h.opened
    rw [hopened]
    by_cases heq : e = d
    · subst heq
      exact htracked.opened e (.inl (htracked.up e rfl).1)
    · exact htracked.opened e (by simpa [System.record, heq] using he)
  · intro e he
    rw [System.record, hattached] at he
    cases he

end Tracked

namespace Session

def lowered (s : Session) : Session where
  system :=
    match s.tunnel with
    | some t => { s.system.record .detach with host := t.drop s.system.host }.record
        (.drop t.utun.handle)
    | none => s.system.record .detach
  sink := none
  tunnel := none
  nextKeepalive := s.nextKeepalive

def raised (o : Outcomes) (lease : Lease) (gateway : Ipv4Addr) (s : Session) : Session :=
  let t := Tunnel.made o lease gateway s.system.host
  { s with
    system :=
      { host := Tunnel.configured o lease gateway s.system.host
        status := s.system.status.map (announce t)
        log := s.system.log ++ [.up t.utun.handle] ++ [.attach t.utun.handle] }
    sink := some t.utun
    tunnel := some t }

/-- Sink and tunnel go together, and the log has it. -/
structure Consistent (served : Bool) (s : Session) : Prop where
  served : s.system.status.isSome = served
  tracked : Tracked (s.tunnel.map fun t => t.utun.handle) s.system
  sink : s.sink = s.tunnel.map Tunnel.utun
  attached : attached s.system.log = s.sink.map Utun.handle

/-- A session whose loop is left; if that is for want of a tunnel, there is none. -/
def Broken (served : Bool) (e : Ending) (s : Session) : Prop :=
  Consistent served s ∧ ∀ cause, e = .tunnel cause → s.tunnel = none

/-- What handling an event can make of a session that goes on. -/
inductive Handled (o : Outcomes) (s : Session) : Option LinkEvent → Session → Prop where
  | nothing : Handled o s none s
  | renewed {lease : Lease} {t : Tunnel} : s.tunnel = some t → t.lease.ip = lease.ip →
      Handled o s (some (.bound lease)) s
  | rebuilt {lease : Lease} {gateway : Ipv4Addr} :
      (∀ t, s.tunnel = some t → t.lease.ip ≠ lease.ip) → lease.router = some gateway →
      Handled o s (some (.bound lease)) (s.lowered.raised o lease gateway)

section Turn

variable {served : Bool} {o : Outcomes} {s : Session} {lease : Lease}

theorem lower_bind {α : Type} (k : SessionM α) : (do detach; dropTunnel; k) s = k s.lowered := by
  cases ht : s.tunnel with
  | none => simp [detach, dropTunnel, onSystem, bind_apply, lowered, ht]
  | some t => simp [detach, dropTunnel, onSystem, bind_apply, lowered, ht, System.record]

theorem Consistent.lowered (h : Consistent served s) : Consistent served s.lowered := by
  have htracked : Tracked none s.lowered.system := by
    have hdetached := h.tracked.recordDetach
    unfold Session.lowered
    cases ht : s.tunnel with
    | none =>
      rw [ht] at hdetached
      exact hdetached
    | some t =>
      rw [ht] at hdetached
      exact hdetached.recordDrop (attached_concat _ _) (t.drop_opened)
  have hserved : s.lowered.system.status = s.system.status := by
    unfold Session.lowered
    cases s.tunnel <;> rfl
  exact ⟨hserved ▸ h.served, htracked, rfl, htracked.attached_none⟩

theorem Consistent.raised {gateway : Ipv4Addr} (h : Consistent served s) (ht : s.tunnel = none) :
    Consistent served (s.raised o lease gateway) := by
  have htracked := h.tracked
  rw [ht] at htracked
  have hup := htracked.recordUp (h := Tunnel.configured o lease gateway s.system.host) rfl
  constructor
  · exact Option.isSome_map.trans h.served
  · exact hup.recordAttach.congr rfl le_rfl
  · rfl
  · exact attached_concat _ _

theorem tunnelUp_ok {t : Tunnel} {g : Host} (h : Tunnel.up o lease s.system.host = (.ok t, g)) :
    tunnelUp o lease s =
      (.ok t, { s with system := { s.system with host := g }.record (.up t.utun.handle) }) := by
  rw [tunnelUp, h]

theorem tunnelUp_error {e : Tun.Error} {g : Host}
    (h : Tunnel.up o lease s.system.host = (.error e, g)) :
    tunnelUp o lease s = (.error (.tunnel e), { s with system := { s.system with host := g } }) := by
  rw [tunnelUp, h]

theorem wp_rebuild (h : Consistent served s) :
    wp (rebuild o lease)
      (fun _ t => ∃ gateway, lease.router = some gateway ∧ t = s.lowered.raised o lease gateway)
      (Broken served) s := by
  have hlowered := h.lowered
  unfold wp rebuild
  rw [lower_bind, ← wp, wp_bind]
  have hup := wp_iff.mp (@Tunnel.wp_up o lease s.lowered.system.host
    (fun t g => ∃ gateway, lease.router = some gateway ∧
      t = Tunnel.made o lease gateway s.lowered.system.host ∧
      g = Tunnel.configured o lease gateway s.lowered.system.host)
    (fun _ g => s.lowered.system.host.opened ≤ g.opened)
    (fun gateway hrouter _ => ⟨gateway, hrouter, rfl, rfl⟩) (fun _ _ hg => hg.opened))
  rcases hresult : Tunnel.up o lease s.lowered.system.host with ⟨e | t, g⟩
  · rw [wp_of_error (tunnelUp_error hresult)]
    refine ⟨?_, fun _ _ => rfl⟩
    exact ⟨hlowered.served, hlowered.tracked.congr rfl (hup.2 e g hresult), hlowered.sink,
      hlowered.attached⟩
  · obtain ⟨gateway, hrouter, rfl, rfl⟩ := hup.1 t g hresult
    rw [wp_of_ok (tunnelUp_ok hresult)]
    exact ⟨gateway, hrouter, rfl⟩

theorem wp_handleEvent {event : Option LinkEvent} (h : Consistent served s) :
    wp (handleEvent o event) (fun _ t => Handled o s event t) (Broken served) s := by
  cases event with
  | none => exact .nothing
  | some event =>
    cases event with
    | failed cause => exact ⟨h, fun _ he => by cases he⟩
    | bound lease =>
      rw [handleEvent, wp_bind, wp_state]
      apply wp_ite
      · intro hsame
        obtain ⟨t, ht, hip⟩ := (Option.any_eq_true _ _).mp hsame
        exact .renewed ht (of_decide_eq_true hip)
      · intro hother
        refine wp_mono (wp_rebuild h) ?_ (fun _ _ ht => ht)
        intro _ t ht
        obtain ⟨gateway, hrouter, rfl⟩ := ht
        refine .rebuilt ?_ hrouter
        intro t ht hip
        exact hother ((Option.any_eq_true _ _).mpr ⟨t, ht, decide_eq_true hip⟩)

theorem Handled.consistent {t : Session} {event : Option LinkEvent} (hhandled : Handled o s event t)
    (h : Consistent served s) : Consistent served t := by
  cases hhandled with
  | nothing => exact h
  | renewed => exact h
  | rebuilt _ _ => exact h.lowered.raised rfl

def counted (s : Session) (tick : Tick) : Session :=
  { s with
    system := s.system.publish fun st =>
      { st with packetsIn := tick.delivered, packetsOut := tick.sent }
    nextKeepalive := tick.later + keepaliveInterval }

theorem wp_keepalive {tick : Tick} :
    wp (keepalive tick) (fun _ t => t = s ∨ t = s.counted tick)
      (fun e t => (∃ cause, e = .keepalive cause) ∧
        t = { s with nextKeepalive := tick.later + keepaliveInterval }) s := by
  rw [keepalive, wp_bind, wp_state]
  apply wp_ite
  · intro _
    rw [wp_bind, wp_update]
    cases tick.keepalive with
    | error e => exact ⟨⟨e, rfl⟩, rfl⟩
    | ok _ => exact .inr rfl
  · intro _
    exact .inl rfl

/-- What a turn of the loop does, if the loop goes on. -/
theorem wp_body {tick : Tick} (h : Consistent served s) :
    wp (body tick)
      (fun _ t => ∃ u, Handled tick.outcomes s tick.event u ∧ (t = u ∨ t = u.counted tick))
      (Broken served) s := by
  rw [body]
  apply wp_ite
  · intro _
    exact ⟨h, fun _ he => by cases he⟩
  · intro _
    rw [wp_bind]
    refine wp_mono (wp_handleEvent h) ?_ (fun _ _ ht => ht)
    intro _ u hu
    refine wp_mono wp_keepalive ?_ ?_
    · intro _ t ht
      exact ⟨u, hu, ht⟩
    · intro e t ht
      obtain ⟨⟨cause, rfl⟩, rfl⟩ := ht
      have hu := hu.consistent h
      exact ⟨⟨hu.served, hu.tracked, hu.sink, hu.attached⟩, fun _ he => by cases he⟩

end Turn

def Shown (s : Session) : Prop :=
  ∀ st, s.system.status = some st →
    st.linkUp = s.tunnel.isSome ∧ st.interface = s.tunnel.map fun t => t.utun.name

structure Head (served : Bool) (s : Session) : Prop extends Consistent served s where
  shown : Shown s

section Preserved

variable {served : Bool} {o : Outcomes} {s t : Session} {event : Option LinkEvent}

theorem Handled.shown (hhandled : Handled o s event t) (h : Shown s) : Shown t := by
  cases hhandled with
  | nothing => exact h
  | renewed => exact h
  | rebuilt _ _ =>
    intro st hst
    obtain ⟨old, _, rfl⟩ := Option.map_eq_some_iff.mp hst
    exact ⟨rfl, rfl⟩

theorem Consistent.counted (h : Consistent served s) (tick : Tick) : Consistent served (s.counted tick) :=
  ⟨Option.isSome_map.trans h.served, h.tracked.congr rfl le_rfl, h.sink, h.attached⟩

theorem Shown.counted (h : Shown s) (tick : Tick) : Shown (s.counted tick) := by
  intro st hst
  obtain ⟨old, hold, rfl⟩ := Option.map_eq_some_iff.mp hst
  exact h old hold

theorem head_body {tick : Tick} (h : Head served s) (hbody : body tick s = (.ok (), t)) : Head served t := by
  obtain ⟨u, hhandled, ht⟩ := (wp_iff.mp (wp_body h.toConsistent)).1 () t hbody
  have hu : Head served u := ⟨hhandled.consistent h.toConsistent, hhandled.shown h.shown⟩
  rcases ht with rfl | rfl
  · exact hu
  · exact ⟨hu.toConsistent.counted tick, hu.shown.counted tick⟩

end Preserved

section End

variable {served : Bool} {s : Session}

def finished (s : Session) : System := (s.lowered.system.record .halt).record .stopThreads

theorem finish_eq : (finish s).2.system = s.finished := by
  unfold finish
  rw [lower_bind]
  rfl

theorem Consistent.finished (h : Consistent served s) : Tracked none s.finished :=
  (h.lowered.tracked.recordEnd (.inl rfl)).recordEnd (.inr rfl)

end End

end Session

def idleStatus (served : Bool) : Option Status := if served then some {} else none

def Sound (served : Bool) : Phase → Prop
  | .scanning y => Tracked none y ∧ y.status = idleStatus served
  | .tethering s => s.Head served
  | .returned y => Tracked none y ∧ y.status = idleStatus served
  | .panicked y => Tracked none y

section Run

variable {served : Bool} {s : Session} {y : System}

theorem reset_status (h : y.status.isSome = served) : (reset y).status = idleStatus served := by
  subst h
  cases hs : y.status <;> simp [reset, System.publish, idleStatus, hs]

theorem dropTunnel_none (h : s.tunnel = none) : (Session.dropTunnel s).2 = s := by
  simp [Session.dropTunnel, bind_apply, h]

theorem afterSession_sound {e : Ending} (h : s.Broken served e) :
    Sound served (afterSession e s) := by
  unfold afterSession
  split
  · have htunnel := h.2 _ rfl
    have htracked := h.1.tracked
    rw [htunnel] at htracked
    rw [dropTunnel_none htunnel]
    exact htracked
  · rw [Session.finish_eq]
    refine ⟨h.1.finished.congr rfl le_rfl, reset_status ?_⟩
    exact h.1.lowered.served

theorem afterScan_sound {scan : Scan} (htracked : Tracked none y)
    (hstatus : y.status = idleStatus served) : Sound served (afterScan y scan) := by
  have hserved : y.status.isSome = served := by
    rw [hstatus]
    cases served <;> rfl
  cases scan with
  | idle => exact ⟨htracked, hstatus⟩
  | failed => exact ⟨htracked, hstatus⟩
  | found info opened =>
    cases opened with
    | none =>
      refine ⟨htracked.congr rfl le_rfl, reset_status ?_⟩
      exact Option.isSome_map.trans hserved
    | some now =>
      refine ⟨⟨Option.isSome_map.trans hserved, htracked.congr rfl le_rfl, rfl,
        htracked.attached_none⟩, ?_⟩
      intro st hst
      obtain ⟨old, hold, rfl⟩ := Option.map_eq_some_iff.mp hst
      rw [hstatus, idleStatus] at hold
      split at hold
      · cases hold
        exact ⟨rfl, rfl⟩
      · cases hold

theorem step_sound {p : Phase} (h : Sound served p) (i : Input) : Sound served (step p i) := by
  cases p with
  | scanning y =>
    cases i with
    | poll requested scan =>
      cases requested with
      | true => exact h
      | false => exact afterScan_sound h.1 h.2
    | tick t => exact h
  | tethering s =>
    cases i with
    | poll requested scan => exact h
    | tick t =>
      rcases hbody : Session.body t s with ⟨e | _, u⟩
      · rw [step, hbody]
        exact afterSession_sound ((wp_iff.mp (Session.wp_body h.toConsistent)).2 e u hbody)
      · rw [step, hbody]
        exact Session.head_body h hbody
  | returned y => exact h
  | panicked y => exact h

theorem run_sound {h : Host} {past : List (Phase × Input)} {p : Phase}
    {ok : List (Phase × Input) → Phase → Input → Prop} (hrun : Machine.Run (run h served) ok past p) :
    Sound served p := by
  apply hrun.invariant (P := fun _ p => Sound served p)
  · refine ⟨⟨⟨?_, ?_⟩, ?_, ?_, ?_, ?_⟩, rfl⟩
    · intro before hbefore d hd
      rw [List.prefix_nil.mp hbefore] at hd
      cases hd
    · intro before hbefore
      simp at hbefore
    · intro d hd
      cases hd
    · intro d hd
      cases hd
    · intro d hd
      rcases hd with hd | hd <;> cases hd
    · intro d hd
      cases hd
  · intro past p i hp _
    exact step_sound hp i

/-- Sink, tunnel and status agree on whether there is a tunnel and which one it is. -/
def Agrees (s : Session) : Prop :=
  s.sink = s.tunnel.map Tunnel.utun ∧ attached s.system.log = s.sink.map Utun.handle ∧ s.Shown

/-- The order of things is kept, and between sessions nothing is left of a tunnel. -/
def Kept (served : Bool) : Phase → Prop
  | .scanning y => Ordered y.log ∧ Quiet y.log ∧ y.status = idleStatus served
  | .tethering s => Ordered s.system.log ∧ Agrees s
  | .returned y => Ordered y.log ∧ Quiet y.log ∧ y.status = idleStatus served
  | .panicked y => Ordered y.log ∧ Quiet y.log

theorem Sound.kept {p : Phase} (h : Sound served p) : Kept served p := by
  cases p with
  | scanning y => exact ⟨h.1.ordered, h.1.quiet, h.2⟩
  | tethering s => exact ⟨h.tracked.ordered, h.sink, h.attached, h.shown⟩
  | returned y => exact ⟨h.1.ordered, h.1.quiet, h.2⟩
  | panicked y => exact ⟨h.ordered, h.quiet⟩

/-- However a session ends, the phone is halted and the threads are stopped last. -/
theorem session_end {t : Tick} (h : Sound served (.tethering s))
    (hstep : step (.tethering s) (.tick t) = .scanning y) :
    ∃ before, y.log = before ++ [.halt, .stopThreads] ∧ Quiet before := by
  rcases hbody : Session.body t s with ⟨e | _, u⟩
  · have hbroken := (wp_iff.mp (Session.wp_body h.toConsistent)).2 e u hbody
    rw [step, hbody] at hstep
    dsimp only at hstep
    unfold afterSession at hstep
    split at hstep
    · cases hstep
    · rw [Session.finish_eq] at hstep
      cases hstep
      refine ⟨u.lowered.system.log, ?_, hbroken.1.lowered.tracked.quiet⟩
      simp [reset, System.publish, Session.finished, System.record]
  · rw [step, hbody] at hstep
    cases hstep

theorem sink_tunnel_status_agree {h : Host} {past : List (Phase × Input)} {p : Phase}
    (hrun : Machine.Run (run h served) Machine.any past p) :
    Kept served p ∧
      ∀ s t y, p = .tethering s → step p (.tick t) = .scanning y →
        ∃ before, y.log = before ++ [.halt, .stopThreads] ∧ Quiet before := by
  have hsound := run_sound hrun
  refine ⟨hsound.kept, ?_⟩
  intro s t y hp hstep
  subst hp
  exact session_end hsound hstep

end Run

def phoneInfo : Usb.DeviceInfo where
  vendorId := 0x2717
  productId := 0xff80
  manufacturer := some "Xiaomi".toList
  product := some "Redmi Note 10S".toList

def quietTick (event : Option LinkEvent) : Tick where
  requested := false
  event := event
  outcomes := Tunnel.smooth
  now := 0
  later := 0
  keepalive := .ok ()
  delivered := 0
  sent := 0

def unplugged : List Input :=
  [.poll false (.found phoneInfo (some 0)), .tick (quietTick (some (.bound Tunnel.phoneLease))),
    .tick (quietTick (some (.failed (.fatal .disconnected))))]

theorem agree_unplugged :
    Kept true (unplugged.foldl step (run Tunnel.bareHost true).start) ∧
      ∃ y, unplugged.foldl step (run Tunnel.bareHost true).start = .scanning y ∧
        y.log = [.detach, .up 0, .attach 0, .detach, .drop 0, .halt, .stopThreads] :=
  ⟨(sink_tunnel_status_agree (Machine.Run.start.takeAll unplugged)).1, _, rfl, by decide +kernel⟩

end Muta.Daemon
