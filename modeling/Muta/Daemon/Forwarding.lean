import Muta.Daemon.Reader

/-!
# What the reader forwards

Over any interleaving of the two threads, the table holds what was last learned and the
notes of requests are not older than any request. So a packet goes to the address last
learned for the gateway, unless that is out of date; and requests for one address keep
their distance over the whole life of the table.
-/

namespace Muta.Reader

open Usb Act Netstack Dhcp Link
set_option autoImplicit false

variable {hostMac : MacAddr} {clock : Nat → Instant}

section Turns

variable {s : Shared}

theorem Received.cache {r : Reader} {raw held : Option Bytes} {s t : Rx}
    (h : Received hostMac clock r raw s held t) : t.arp.cache = s.arp.cache := by
  cases h <;> rfl

theorem Received.reads {r : Reader} {raw held : Option Bytes} {s t : Rx}
    (h : Received hostMac clock r raw s held t) : s.reads ≤ t.reads := by
  cases h with
  | idle _ => exact Nat.le_refl _
  | wrapped _ _ _ _ _ _ _ => exact Nat.le_add_right _ _
  | limited _ _ _ _ _ => exact Nat.le_add_right _ _
  | asks _ _ _ _ _ _ _ => exact Nat.le_add_right _ _

theorem handleArp_cache {bytes payload : Bytes}
    (hclass : Rx.classify hostMac bytes = .arp payload) :
    (Rx.handleArp clock payload s.rx).2.arp.cache =
      Machine.write s.rx.arp.cache (taught hostMac clock s (.frame bytes)) := by
  rcases @Rx.handleArp_cases clock payload s.rx with ⟨e, hp, harp⟩ | ⟨p, reply, hp, _, harp⟩
  · rw [harp]
    simp only [taught, hclass, hp]
    rfl
  · rw [harp]
    simp only [taught, hclass, hp]
    rw [Arp.learned_eq]
    split <;> rfl

theorem handleDhcp_cache {bytes : Bytes} {srcMac : MacAddr} {d : UdpDatagram}
    (hclass : Rx.classify hostMac bytes = .dhcp srcMac d) :
    (Rx.handleDhcp hostMac clock srcMac d s.rx).2.arp.cache =
      Machine.write s.rx.arp.cache (taught hostMac clock s (.frame bytes)) := by
  have hout := DhcpClient.handle_outcome s.rx.dhcp d.payload
  generalize hr : DhcpClient.handle d.payload s.rx.dhcp = result at hout
  cases hout with
  | rejected e =>
    rw [Rx.handleDhcp_rejected hr]
    simp only [taught, hclass, hr]
    rfl
  | ignored =>
    rw [Rx.handleDhcp_ignored hr]
    simp only [taught, hclass, hr]
    rfl
  | offer p request _ _ _ _ _ _ =>
    obtain ⟨frame, _, hsend⟩ := @Rx.handleDhcp_send hostMac clock d s.rx _ request hr srcMac
    rw [hsend]
    simp only [taught, hclass, hr]
    rfl
  | ack p lease _ _ _ _ _ _ =>
    rw [Rx.handleDhcp_bind hr]
    simp only [taught, hclass, hr]
    rfl
  | nak p _ _ _ _ _ =>
    rw [Rx.handleDhcp_refuse hr]
    simp only [taught, hclass, hr]
    rfl

theorem turn_cache (s : Shared) (t : Turn) :
    (turn hostMac clock s t).rx.arp.cache =
      Machine.write s.rx.arp.cache (taught hostMac clock s t) := by
  have hturned := @turn_turned hostMac clock s t
  generalize turn hostMac clock s t = u at hturned
  cases hturned with
  | frame bytes =>
    rw [Rx.handleFrame_eq]
    split
    · rename_i hclass
      simp only [taught, hclass]
      rfl
    · rename_i payload hclass
      exact handleArp_cache hclass
    · rename_i packet hclass
      simp only [taught, hclass]
      rfl
    · rename_i srcMac d hclass
      exact handleDhcp_cache hclass
  | poll =>
    obtain ⟨result, t, new, hdue, hpoll, _⟩ := @Rx.poll_step hostMac clock s.rx
    rw [hpoll]
    cases hdue <;> rfl
  | read r raw held rx _ hreceived => exact hreceived.cache
  | busy r raw frame _ => rfl
  | send frame _ => rfl
  | done _ => rfl

end Turns

section Runs

variable {past : List (Shared × Turn)} {s : Shared}

theorem cache_eq_latest (run : Machine.Run (shared hostMac clock) Machine.any past s) :
    s.rx.arp.cache = Machine.latest (taught hostMac clock) past := by
  refine run.store_eq_latest (g := fun s => s.rx.arp.cache) ?_ turn_cache
  intro ip
  obtain ⟨frame, hstart⟩ := @Rx.start_eq hostMac clock (Rx.initial hostMac)
  rw [shared, Rx.thread, hstart]
  rfl

theorem taught_reads {t : Turn} {ip : Ipv4Addr} {e : Entry}
    (h : taught hostMac clock s t = some (ip, e)) :
    ∃ k < (turn hostMac clock s t).rx.reads, e.learned = clock k := by
  cases t with
  | frame bytes =>
    simp only [taught] at h
    simp only [turn, Rx.take, Rx.handleFrame_eq]
    split at h
    · rename_i payload hclass
      rcases @Rx.handleArp_cases clock payload s.rx with ⟨_, hp, _⟩ | ⟨p, _, hp, _, harp⟩
      · rw [hp] at h
        cases h
      · simp only [hp] at h
        simp only [hclass, harp]
        split at h
        · rename_i husable
          cases h
          rw [if_pos ((Arp.inserts_iff _ hp).mpr husable)]
          exact ⟨s.rx.reads, Nat.lt_succ_self _, rfl⟩
        · cases h
    · rename_i srcMac d hclass
      split at h
      · rename_i lease hbound
        cases h
        simp only [hclass, Rx.handleDhcp_bound hbound]
        exact ⟨s.rx.reads + 1, Nat.lt_succ_self _, rfl⟩
      · cases h
    · cases h
  | poll => cases h
  | read r raw => cases h
  | send => cases h

theorem turn_reads (s : Shared) (t : Turn) : s.rx.reads ≤ (turn hostMac clock s t).rx.reads := by
  have hturned := @turn_turned hostMac clock s t
  generalize turn hostMac clock s t = u at hturned
  cases hturned with
  | frame bytes => exact (handleFrame_apart bytes s.rx).reads
  | poll => exact (poll_apart s.rx).reads
  | read r raw held rx _ hreceived => exact hreceived.reads
  | busy r raw frame _ => exact Nat.le_refl _
  | send frame _ => exact Nat.le_refl _
  | done _ => exact Nat.le_refl _

theorem learned_before (run : Machine.Run (shared hostMac clock) Machine.any past s) :
    ∀ x ∈ past, ∀ ip e, taught hostMac clock x.1 x.2 = some (ip, e) →
      ∃ k < s.rx.reads, e.learned = clock k := by
  refine run.invariant (P := fun past s => ∀ x ∈ past, ∀ ip e,
    taught hostMac clock x.1 x.2 = some (ip, e) → ∃ k < s.rx.reads, e.learned = clock k) ?_ ?_
  · intro x hx
    cases hx
  · intro past s t ih _ x hx ip e htaught
    rcases List.mem_append.mp hx with hx | hx
    · obtain ⟨k, hk, hlearned⟩ := ih x hx ip e htaught
      exact ⟨k, Nat.lt_of_lt_of_le hk (turn_reads s t), hlearned⟩
    · rw [List.mem_singleton] at hx
      subst hx
      exact taught_reads htaught

theorem latest_learned {ip : Ipv4Addr} {e : Entry} (mono : Monotone clock)
    (run : Machine.Run (shared hostMac clock) Machine.any past s)
    (h : Machine.latest (taught hostMac clock) past ip = some e) :
    e.learned ≤ clock s.rx.reads := by
  obtain ⟨x, hx, htaught⟩ := Machine.exists_of_latest h
  obtain ⟨k, hk, hlearned⟩ := learned_before run x hx ip e htaught
  rw [hlearned]
  exact mono (Nat.le_of_lt hk)

/-- A turn queues a request for `ip`. -/
def Asks (hostMac : MacAddr) (clock : Nat → Instant) (x : Shared × Turn) (ip : Ipv4Addr) : Prop :=
  ∃ frame ∈ queued hostMac clock x.1 x.2, arpTarget frame = some ip

def requestTime (clock : Nat → Instant) (x : Shared × Turn) : Instant :=
  match x.2 with
  | .read r _ => clock (x.1.rx.reads + looks r x.1.rx)
  | _ => clock x.1.rx.reads

theorem mem_queued {t : Turn} {new : List Effect} {frame : Bytes}
    (h : (turn hostMac clock s t).rx.log = s.rx.log ++ new) :
    frame ∈ queued hostMac clock s t ↔ Effect.queue frame ∈ new := by
  rw [queued, h, List.drop_left, List.mem_filterMap]
  constructor
  · intro hmem
    obtain ⟨e, he, hframe⟩ := hmem
    split at hframe
    · rw [← Option.some.inj hframe]
      exact he
    · cases hframe
  · intro hmem
    exact ⟨_, hmem, rfl⟩

theorem Apart.quiet {t : Turn} (h : Apart s.rx (turn hostMac clock s t).rx) (ip : Ipv4Addr) :
    ¬ Asks hostMac clock (s, t) ip := by
  intro hasks
  obtain ⟨new, hlog, hnone⟩ := h.log
  obtain ⟨frame, hframe, htarget⟩ := hasks
  rw [(hnone frame ((mem_queued hlog).mp hframe)).1] at htarget
  cases htarget

theorem Received.held_target {r : Reader} {raw : Option Bytes} {frame : Bytes} {s t : Rx}
    (h : Received hostMac clock r raw s (some frame) t) :
    arpTarget frame = none ∧ frame.length < 2 ^ 17 := by
  cases h with
  | wrapped packet mac _ hread _ _ hbuild =>
    obtain ⟨pad, _, hfields⟩ := Ethernet.build_ok (ε := Empty) mac hostMac Ethernet.ethertypeIpv4 packet
      (read_fits hread)
    have hlen := Ethernet.length_build hbuild
    have hread := length_read hread
    have hmtu := r.mtu.toNat_lt
    have hhdr : Ethernet.headerLen = 14 := rfl
    have hmin : Ethernet.minFrameLen = 60 := rfl
    rw [hbuild] at hfields
    cases hfields
    exact ⟨arpTarget_ipv4 _ _ _, by omega⟩

theorem held_target {frame : Bytes} (run : Machine.Run (shared hostMac clock) Machine.any past s)
    (h : s.held = some frame) : arpTarget frame = none ∧ frame.length < 2 ^ 17 := by
  refine run.invariant (P := fun _ s => ∀ frame, s.held = some frame →
    arpTarget frame = none ∧ frame.length < 2 ^ 17) ?_ ?_ frame h
  · intro frame hheld
    cases hheld
  · intro past s t ih _ frame hheld
    have hturned := @turn_turned hostMac clock s t
    rw [shared_step] at hheld
    generalize turn hostMac clock s t = u at hturned hheld
    cases hturned with
    | frame bytes => exact ih frame hheld
    | poll => exact ih frame hheld
    | read r raw held rx _ hreceived =>
      cases hheld
      exact hreceived.held_target
    | busy r raw other _ => exact ih frame hheld
    | send other _ => cases hheld
    | done hnone => exact ih frame hheld

/-- A turn makes no request and leaves the notes alone, or makes and notes one it was free
to make. -/
theorem turn_asks (run : Machine.Run (shared hostMac clock) Machine.any past s) (t : Turn) :
    ((∀ ip, ¬ Asks hostMac clock (s, t) ip) ∧
      (turn hostMac clock s t).rx.arp.lastRequest = s.rx.arp.lastRequest) ∨
    ∃ gateway, (∀ ip, Asks hostMac clock (s, t) ip → ip = gateway) ∧
      ¬ s.rx.arp.Limited gateway (requestTime clock (s, t)) ∧
      (turn hostMac clock s t).rx.arp = s.rx.arp.noted gateway (requestTime clock (s, t)) := by
  have hquiet : Apart s.rx (turn hostMac clock s t).rx →
      (∀ ip, ¬ Asks hostMac clock (s, t) ip) ∧
        (turn hostMac clock s t).rx.arp.lastRequest = s.rx.arp.lastRequest :=
    fun hapart => ⟨hapart.quiet, hapart.lastRequest⟩
  have hturned := @turn_turned hostMac clock s t
  generalize hturn : turn hostMac clock s t = u at hturned hquiet ⊢
  cases hturned with
  | frame bytes => exact Or.inl (hquiet (handleFrame_apart bytes s.rx))
  | poll => exact Or.inl (hquiet (poll_apart s.rx))
  | read r raw held rx _ hreceived =>
    cases hreceived with
    | idle _ => exact Or.inl (hquiet (Apart.refl s.rx))
    | wrapped _ _ _ _ _ _ _ => exact Or.inl (hquiet (Apart.reading s.rx 1))
    | limited _ _ _ _ _ => exact Or.inl (hquiet (Apart.reading s.rx _))
    | asks packet pad _ _ _ hfree _ =>
      refine Or.inr ⟨r.gateway, ?_, hfree, rfl⟩
      intro ip hasks
      obtain ⟨frame, hframe, htarget⟩ := hasks
      have hlog := congrArg (fun u => u.rx.log) hturn
      have hmem := (mem_queued hlog).mp hframe
      simp only [List.mem_singleton, Effect.queue.injEq] at hmem
      rw [hmem, arpTarget_request] at htarget
      exact (Option.some.inj htarget).symm
  | busy r raw frame _ => exact Or.inl (hquiet (Apart.refl s.rx))
  | send frame hheld =>
    refine Or.inl (hquiet ⟨⟨_, rfl, ?_⟩, rfl, Nat.le_refl _⟩)
    intro frame' hmem
    simp only [List.mem_singleton, Effect.queue.injEq] at hmem
    rw [hmem]
    exact held_target run hheld
  | done _ => exact Or.inl (hquiet (Apart.refl s.rx))

theorem add_le_of_not_limited {a : Arp} {ip : Ipv4Addr} {now sent : Instant}
    (h : ¬ a.Limited ip now) (hsent : a.lastRequest ip = some sent) :
    sent + Arp.retryInterval ≤ now := by
  have hgap : ¬ now - sent < Arp.retryInterval := fun hlt => h ⟨sent, hsent, hlt⟩
  have hpos : 0 < Arp.retryInterval := by decide
  have hnat : ∀ {i j k : Nat}, 0 < k → ¬ i - j < k → j + k ≤ i := by omega
  exact hnat hpos hgap

theorem noted_after (run : Machine.Run (shared hostMac clock) Machine.any past s) :
    ∀ x ∈ past, ∀ ip, Asks hostMac clock x ip →
      ∃ sent, s.rx.arp.lastRequest ip = some sent ∧ requestTime clock x ≤ sent := by
  induction run with
  | start =>
    intro x hx
    cases hx
  | @take past s t run _ ih =>
    intro x hx ip hasks
    rw [shared_step]
    rw [List.mem_append, List.mem_singleton] at hx
    rcases turn_asks run t with ⟨hquiet, hkept⟩ | ⟨gateway, honly, hfree, hnoted⟩
    · rcases hx with hx | rfl
      · rw [hkept]
        exact ih x hx ip hasks
      · exact absurd hasks (hquiet ip)
    · rw [hnoted]
      rcases hx with hx | rfl
      · obtain ⟨sent, hsent, hle⟩ := ih x hx ip hasks
        by_cases hip : ip = gateway
        · subst hip
          have hgap := add_le_of_not_limited hfree hsent
          exact ⟨_, if_pos rfl, Nat.le_trans hle (Nat.le_trans (Nat.le_add_right _ _) hgap)⟩
        · exact ⟨sent, (if_neg hip).trans hsent, hle⟩
      · rw [honly ip hasks]
        exact ⟨_, if_pos rfl, Nat.le_refl _⟩

theorem requests_apart (run : Machine.Run (shared hostMac clock) Machine.any past s) :
    past.Pairwise fun x y => ∀ ip, Asks hostMac clock x ip → Asks hostMac clock y ip →
      requestTime clock x + Arp.retryInterval ≤ requestTime clock y := by
  refine run.pairwise ?_
  intro past s t run _ x hx ip hfirst hsecond
  obtain ⟨sent, hsent, hle⟩ := noted_after run x hx ip hfirst
  rcases turn_asks run t with ⟨hquiet, _⟩ | ⟨gateway, honly, hfree, _⟩
  · exact absurd hsecond (hquiet ip)
  · rw [← honly ip hsecond] at hfree
    have hgap := add_le_of_not_limited hfree hsent
    exact Nat.le_trans (Nat.add_le_add_right hle _) hgap

def Reads (x : Shared × Turn) : Prop := x.1.held = none ∧ ∃ r raw, x.2 = .read r raw

/-- What may be queued for a packet: nothing, its frame for the address last learned, or a
request where none was learned or all that was is out of date. -/
inductive Carried (hostMac : MacAddr) (clock : Nat → Instant) (past : List (Shared × Turn))
    (s : Shared) (r : Reader) (packet : Bytes) : List Bytes → Prop where
  | nothing : Carried hostMac clock past s r packet []
  | wrapped (e : Entry) (frame : Bytes) :
      Machine.latest (taught hostMac clock) past r.gateway = some e → e.learned ≤ clock s.rx.reads →
      clock s.rx.reads - e.learned < Arp.entryTtl →
      (Ethernet.build e.mac hostMac Ethernet.ethertypeIpv4 packet : Checked Empty _) = .ok frame →
      Carried hostMac clock past s r packet [frame]
  | request (frame : Bytes) :
      (∀ e, Machine.latest (taught hostMac clock) past r.gateway = some e →
        Arp.entryTtl ≤ clock s.rx.reads - e.learned) →
      arpTarget frame = some r.gateway → Carried hostMac clock past s r packet [frame]

theorem queued_eq_nil {t : Turn} (h : (turn hostMac clock s t).rx.log = s.rx.log) :
    queued hostMac clock s t = [] := by
  rw [queued, h, List.drop_length]
  rfl

theorem forwarded_append (xs ys : List (Shared × Turn)) :
    forwarded hostMac clock (xs ++ ys) = forwarded hostMac clock xs ++ forwarded hostMac clock ys :=
  List.flatMap_append

/-- Until it reads again, the reader keeps what it holds or queues it. -/
theorem turn_forwards {t : Turn} (h : ¬ Reads (s, t)) :
    ((turn hostMac clock s t).held = s.held ∧ forwarded hostMac clock [(s, t)] = []) ∨
    ((turn hostMac clock s t).held = none ∧ forwarded hostMac clock [(s, t)] = s.held.toList) := by
  have hturned := @turn_turned hostMac clock s t
  generalize hturn : turn hostMac clock s t = u at hturned
  have hlog := congrArg (fun u => u.rx.log) hturn
  cases hturned with
  | frame bytes => exact Or.inl ⟨rfl, rfl⟩
  | poll => exact Or.inl ⟨rfl, rfl⟩
  | read r raw held rx hnone _ => exact absurd ⟨hnone, r, raw, rfl⟩ h
  | busy r raw frame _ => exact Or.inl ⟨rfl, by simp [forwarded, queued_eq_nil hlog]⟩
  | send frame hheld => exact Or.inr ⟨rfl, by simp [forwarded, queued, hturn, hheld]⟩
  | done hnone => exact Or.inl ⟨rfl, by simp [forwarded, queued_eq_nil hlog]⟩

theorem held_until {before after : List (Shared × Turn)} {s₀ : Shared} {t₀ : Turn}
    (run : Machine.Run (shared hostMac clock) Machine.any past s)
    (hpast : past = before ++ (s₀, t₀) :: after) (hafter : ∀ x ∈ after, ¬ Reads x) :
    (s.held = (turn hostMac clock s₀ t₀).held ∧ forwarded hostMac clock after = []) ∨
    (s.held = none ∧
      forwarded hostMac clock after = (turn hostMac clock s₀ t₀).held.toList) := by
  induction run generalizing after with
  | start => simp at hpast
  | @take past s t run _ ih =>
    rw [shared_step]
    rcases Machine.concat_eq hpast with ⟨rfl, _, heq⟩ | ⟨earlier, rfl, hbefore⟩
    · cases heq
      exact Or.inl ⟨rfl, rfl⟩
    · have hturn := @turn_forwards hostMac clock s t (hafter _ (by simp))
      have hih := ih hbefore fun x hx => hafter x (List.mem_append_left _ hx)
      rw [forwarded_append]
      rcases hih with ⟨hkept, hnone⟩ | ⟨hkept, hsent⟩
      · rcases hturn with ⟨hheld, hquiet⟩ | ⟨hheld, hsend⟩
        · exact Or.inl ⟨hheld.trans hkept, by rw [hnone, hquiet]; rfl⟩
        · exact Or.inr ⟨hheld, by rw [hnone, hsend, hkept]; rfl⟩
      · rcases hturn with ⟨hheld, hquiet⟩ | ⟨hheld, hsend⟩
        · exact Or.inr ⟨hheld.trans hkept, by rw [hsent, hquiet, List.append_nil]⟩
        · refine Or.inr ⟨hheld, ?_⟩
          rw [hsent, hsend, hkept]
          exact List.append_nil _

theorem forwarded_cons_read (s : Shared) (r : Reader) (raw : Option Bytes)
    (after : List (Shared × Turn)) :
    forwarded hostMac clock ((s, .read r raw) :: after) =
      queued hostMac clock s (.read r raw) ++ forwarded hostMac clock after := rfl

theorem packet_carried {before after : List (Shared × Turn)} {s₀ : Shared} {r : Reader}
    {raw : Option Bytes} {packet : Bytes} (mono : Monotone clock)
    (run : Machine.Run (shared hostMac clock) Machine.any past s)
    (hpast : past = before ++ (s₀, .read r raw) :: after) (hfree : s₀.held = none)
    (hread : r.read raw = some packet) (hpacket : packet ≠ []) (hafter : ∀ x ∈ after, ¬ Reads x) :
    Carried hostMac clock before s₀ r packet
      (forwarded hostMac clock ((s₀, .read r raw) :: after)) := by
  have hlater := held_until run hpast hafter
  subst hpast
  have hrun := run.before.1
  have hcache := cache_eq_latest hrun
  have hturned := @turn_turned hostMac clock s₀ (.read r raw)
  generalize hturn : turn hostMac clock s₀ (.read r raw) = u at hturned hlater
  have hlog := congrArg (fun u => u.rx.log) hturn
  have hfreed : u.held = none → forwarded hostMac clock after = [] := by
    intro hnone
    rcases hlater with ⟨_, hlater⟩ | ⟨_, hlater⟩
    · exact hlater
    · rw [hlater, hnone]
      rfl
  rw [forwarded_cons_read]
  cases hturned with
  | busy _ _ frame hheld => cases hfree.symm.trans hheld
  | read _ _ held rx _ hreceived =>
    cases hreceived with
    | idle hidle =>
      rcases hidle with hidle | hidle
      · cases hread.symm.trans hidle
      · exact absurd (Option.some.inj (hread.symm.trans hidle)) hpacket
    | wrapped packet' mac frame hread' _ hlookup hbuild =>
      cases hread.symm.trans hread'
      rw [queued_eq_nil hlog, List.nil_append]
      rcases hlater with ⟨_, hnone⟩ | ⟨_, hsent⟩
      · rw [hnone]
        exact .nothing
      · rw [hsent]
        obtain ⟨e, he, hfresh, rfl⟩ := Arp.lookup_eq_some.mp hlookup
        rw [hcache] at he
        exact .wrapped e frame he (latest_learned mono hrun he) hfresh hbuild
    | limited packet' _ _ _ _ =>
      rw [queued_eq_nil hlog, hfreed rfl]
      exact .nothing
    | asks packet' pad _ _ hlookup _ _ =>
      have hqueued : queued hostMac clock s₀ (.read r raw) = [requestFrame r s₀.rx pad] := by
        rw [queued, hturn]
        simp
      rw [hqueued, hfreed rfl, List.append_nil]
      refine .request _ ?_ (arpTarget_request r s₀.rx pad)
      intro e he
      rw [← hcache] at he
      exact Arp.lookup_eq_none.mp hlookup e he

/-- From one packet to the next the reader queues at most one frame: the packet's, for the
address last learned for the gateway and not out of date, or else a request. And requests
for one address, whoever makes them, are a second or more apart. -/
theorem reader_forwards (mono : Monotone clock)
    (run : Machine.Run (shared hostMac clock) Machine.any past s) :
    (∀ before s₀ r raw packet after, past = before ++ (s₀, .read r raw) :: after → s₀.held = none →
      r.read raw = some packet → packet ≠ [] → (∀ x ∈ after, ¬ Reads x) →
      Carried hostMac clock before s₀ r packet
        (forwarded hostMac clock ((s₀, .read r raw) :: after))) ∧
    past.Pairwise fun x y => ∀ ip, Asks hostMac clock x ip → Asks hostMac clock y ip →
      requestTime clock x + Arp.retryInterval ≤ requestTime clock y := by
  refine ⟨?_, requests_apart run⟩
  intro before s₀ r raw packet after hpast hfree hread hpacket hafter
  exact packet_carried mono run hpast hfree hread hpacket hafter

end Runs

/-- A packet read off a tunnel whose gateway was learned when the lease was bound. -/
theorem reader_forwards_bound :
    ∃ past s before s₀ after, Machine.Run (shared Rx.testMac fun n => ofSecs n) Machine.any past s ∧
      past = before ++ (s₀, .read ⟨Rx.testServer, 1500⟩ (some [0, 0, 0, 2, 69, 0])) :: after ∧
      (forwarded Rx.testMac (fun n => ofSecs n)
        ((s₀, .read ⟨Rx.testServer, 1500⟩ (some [0, 0, 0, 2, 69, 0])) :: after)).length = 1 ∧
      Carried Rx.testMac (fun n => ofSecs n) before s₀ ⟨Rx.testServer, 1500⟩ [69, 0]
        (forwarded Rx.testMac (fun n => ofSecs n)
          ((s₀, .read ⟨Rx.testServer, 1500⟩ (some [0, 0, 0, 2, 69, 0])) :: after)) := by
  have mono : Monotone fun n => ofSecs n := fun _ _ hij => Nat.mul_le_mul_right _ hij
  have run := (Machine.Run.start (m := shared Rx.testMac fun n => ofSecs n)).takeAll
    [.frame (Rx.testFrame offerType []), .frame (Rx.testFrame ackType []),
      .read ⟨Rx.testServer, 1500⟩ (some [0, 0, 0, 2, 69, 0]), .send]
  refine ⟨_, _, [_, _], _, [_], run, rfl, by decide +kernel, ?_⟩
  refine (reader_forwards mono run).1 [_, _] _ _ _ _ [_] rfl ?_ rfl (by decide) ?_
  · decide +kernel
  · simp [Reads]

end Muta.Reader
