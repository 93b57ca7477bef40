import Muta.Link.RxRun

/-!
# The ARP table over a run

The table has two writers. `Arp.handle` learns only from a usable sender; a lease being
bound enters the sender of the ACK as it comes. And the address the table answers for is
set when a lease is bound, but not when one is refused. Both results below say exactly
which inputs matter.
-/

namespace Muta.Link.Rx

open Usb Act Netstack Dhcp
set_option autoImplicit false

variable {hostMac : MacAddr} {clock : Nat → Instant}

/-- No entry for the unspecified address, none with a group address. -/
def CacheSound (a : Arp) : Prop :=
  ∀ ip e, a.cache ip = some e → ip ≠ .unspecified ∧ e.mac.isMulticast = false

/-- An ACK that binds a lease comes from a usable sender. -/
def UsableSender (hostMac : MacAddr) (s : Rx) : Input → Prop
  | .frame bytes => ∀ srcMac d p, classify hostMac bytes = .dhcp srcMac d →
      s.dhcp.Answered ackType d.payload p → p.yiaddr ≠ .unspecified →
      d.srcIp ≠ .unspecified ∧ srcMac.isMulticast = false
  | _ => True

theorem CacheSound.insert {a : Arp} (h : CacheSound a) (ip : Ipv4Addr) (mac : MacAddr) (now : Instant) :
    CacheSound (a.insert ip mac now) ↔ ip ≠ .unspecified ∧ mac.isMulticast = false := by
  constructor
  · intro hs
    exact hs ip { mac, learned := now } (by simp [Arp.insert])
  · intro hnew i e he
    by_cases hi : i = ip
    · subst hi
      simp only [Arp.insert, if_pos] at he
      cases he
      exact hnew
    · simp only [Arp.insert, if_neg hi] at he
      exact h i e he

theorem CacheSound.learned {a : Arp} (h : CacheSound a) (p : ArpPacket) (now : Instant) :
    CacheSound (a.learned p now) := by
  rw [Arp.learned_eq]
  split
  · rename_i husable
    exact (h.insert p.senderIp p.senderMac now).mpr husable
  · exact h

theorem DueStep.arp {s t : Rx} {r : Option Bytes} (h : DueStep clock s r t) : t.arp = s.arp := by
  cases h <;> rfl

def IsReply (hostMac : MacAddr) (i : Input) : Prop :=
  ∃ bytes srcMac d, i = .frame bytes ∧ classify hostMac bytes = .dhcp srcMac d

structure Undisturbed (s t : Rx) : Prop where
  cache : CacheSound s.arp → CacheSound t.arp
  hostIp : t.arp.hostIp = s.arp.hostIp
  lease : t.dhcp.lease = s.dhcp.lease

theorem FrameStep.undisturbed {s t : Rx} {c : Class} (hc : ∀ srcMac d, c ≠ .dhcp srcMac d)
    (hstep : FrameStep hostMac clock s c t) : Undisturbed s t := by
  cases hstep with
  | skip => exact ⟨id, rfl, rfl⟩
  | sink packet => exact ⟨id, rfl, rfl⟩
  | arpBad payload e _ => exact ⟨id, rfl, rfl⟩
  | arp payload p reply _ => exact ⟨fun h => h.learned p _, Arp.learned_hostIp _ _ _, rfl⟩
  | dhcp srcMac d _ _ => exact absurd rfl (hc srcMac d)

theorem take_undisturbed (s : Rx) {i : Input} (hi : ¬ IsReply hostMac i) :
    Undisturbed s (take hostMac clock s i) := by
  cases i with
  | poll =>
    have htaken := @poll_taken hostMac clock s
    generalize ht : take hostMac clock s .poll = t
    rw [take] at ht
    rw [ht] at htaken
    cases htaken with
    | poll r t new hdue _ =>
      exact ⟨fun h => hdue.arp.symm ▸ h, congrArg Arp.hostIp hdue.arp, hdue.kept.2⟩
  | request lastRequest => exact ⟨id, rfl, rfl⟩
  | frame bytes =>
    obtain ⟨t, ht, hstep⟩ := @handleFrame_step hostMac clock bytes s
    rw [take, ht]
    exact hstep.undisturbed fun srcMac d hc => hi ⟨bytes, srcMac, d, rfl, hc⟩

theorem DhcpStep.arp {s t : Rx} {srcMac : MacAddr} {d : UdpDatagram}
    (hnot : ∀ lease, (DhcpClient.handle d.payload s.dhcp).1 ≠ .ok (.bound lease))
    (hstep : DhcpStep hostMac clock s srcMac d t) : t.arp = s.arp := by
  cases hstep with
  | unused r _ => rfl
  | offer c msg frame _ _ => rfl
  | ack c lease hout =>
    cases hout with
    | ack p _ hp hx hm ht hs hl =>
      exact absurd (DhcpClient.handle_bound_iff.mpr ⟨p, ⟨hp, hx, hm, ht, hs⟩, hl⟩) (hnot lease)
  | nak c _ => rfl

theorem take_dhcp {bytes : Bytes} {srcMac : MacAddr} {d : UdpDatagram}
    (h : classify hostMac bytes = .dhcp srcMac d) (s : Rx) :
    DhcpStep hostMac clock s srcMac d (take hostMac clock s (.frame bytes)) := by
  obtain ⟨t, ht, hstep⟩ := @handleDhcp_step hostMac clock srcMac d s
  rw [take, handleFrame_dhcp h, ht]
  exact hstep

theorem usableSender_of_not_reply {s : Rx} {i : Input} (hi : ¬ IsReply hostMac i) :
    UsableSender hostMac s i := by
  cases i with
  | poll => trivial
  | request lastRequest => trivial
  | frame bytes =>
    intro srcMac d p hc
    exact absurd ⟨bytes, srcMac, d, rfl, hc⟩ hi

theorem cacheSound_step (s : Rx) (i : Input) (h : CacheSound s.arp) :
    CacheSound (take hostMac clock s i).arp ↔ UsableSender hostMac s i := by
  by_cases hi : IsReply hostMac i
  · obtain ⟨bytes, srcMac, d, rfl, hc⟩ := hi
    by_cases hb : ∃ lease, (DhcpClient.handle d.payload s.dhcp).1 = .ok (.bound lease)
    · obtain ⟨lease, hb⟩ := hb
      rw [take, handleFrame_dhcp hc, handleDhcp_bound hb]
      have hset : CacheSound (s.arp.setHostIp lease.ip) := h
      rw [hset.insert]
      constructor
      · intro husable srcMac' d' p hc' _ _
        cases hc.symm.trans hc'
        exact husable
      · intro husable
        obtain ⟨p, hp, hl⟩ := DhcpClient.handle_bound_iff.mp hb
        exact husable srcMac d p hc hp (DhcpClient.leaseFrom_eq_ok hl).1
    · have hnot : ∀ lease, (DhcpClient.handle d.payload s.dhcp).1 ≠ .ok (.bound lease) :=
        fun lease heq => hb ⟨lease, heq⟩
      rw [(take_dhcp hc s).arp hnot]
      refine iff_of_true h ?_
      intro srcMac' d' p hc' hp hip
      cases hc.symm.trans hc'
      obtain ⟨lease, hl⟩ := DhcpClient.leaseFrom_ok (c := s.dhcp) hip
      exact absurd (DhcpClient.handle_bound_iff.mpr ⟨p, hp, hl⟩) (hnot lease)
  · exact iff_of_true ((take_undisturbed s hi).cache h) (usableSender_of_not_reply hi)

/-- The cache is sound in every state of a run exactly if every ACK that binds a lease in
it comes from a usable sender. -/
theorem cache_sound_iff {past : List (Rx × Input)} {s : Rx}
    (run : Machine.Run (thread hostMac clock) Machine.any past s) :
    (∀ x ∈ past, CacheSound x.1.arp) ∧ CacheSound s.arp ↔
      ∀ x ∈ past, UsableSender hostMac x.1 x.2 := by
  refine run.always_iff (P := fun s => CacheSound s.arp) ?_ ?_
  · obtain ⟨frame, hstart⟩ := @start_eq hostMac clock (initial hostMac)
    rw [thread, hstart]
    intro ip e he
    cases he
  · intro _ s i _ h
    exact cacheSound_step s i h

theorem cache_sound_iff_bound :
    ∃ past s, Machine.Run (thread testMac fun n => ofSecs n) Machine.any past s ∧
      s.dhcp.state = .bound ∧ CacheSound s.arp := by
  have run := (Machine.Run.start (m := thread testMac fun n => ofSecs n)).takeAll
    [.frame (testFrame offerType []), .frame (testFrame ackType [])]
  have husable : ∀ s t, UsableSender testMac s (.frame (testFrame t [])) := by
    intro s t srcMac d p hc _ _
    rw [testFrame, classify_replyFrame] at hc
    · cases hc
      dsimp only
      decide
    · rw [testReply, length_serverReply]
      decide
  refine ⟨_, _, run, by decide +kernel, ((cache_sound_iff run).mpr ?_).2⟩
  intro x hx
  simp only [Machine.trace, List.nil_append, List.mem_cons, List.not_mem_nil, or_false] at hx
  rcases hx with rfl | rfl
  · exact husable _ offerType
  · exact husable _ ackType

/-- An ACK from 0.0.0.0, sent from a group address, is entered as it comes. -/
theorem ack_poisons_cache :
    ¬ ∀ hostMac clock s, Reachable hostMac clock s → CacheSound s.arp := by
  intro h
  have hsound := h testMac (fun n => ofSecs n) _ (after_reachable
    [Packet.append [] (testFrame offerType []) 0,
      delivery testMac ⟨3, 0, 0, 0, 0, 9⟩ .unspecified (testReply ackType [])])
  have hentry := hsound .unspecified { mac := ⟨3, 0, 0, 0, 0, 9⟩, learned := ofSecs 4 } (by decide +kernel)
  exact hentry.1 rfl

/-- The table answers for the leased address, and for nothing else. -/
structure OwnsAddress (s : Rx) : Prop where
  follows : s.arp.hostIp = (s.dhcp.lease.map Lease.ip).getD .unspecified
  answers : ∀ payload now reply, (Arp.handle payload now s.arp).1 = .ok (some reply) →
    ∃ p lease, Arp.parse payload = .ok p ∧ s.dhcp.lease = some lease ∧ p.targetIp = lease.ip

def KeepsLease (hostMac : MacAddr) (s : Rx) : Input → Prop
  | .frame bytes => ∀ srcMac d p, classify hostMac bytes = .dhcp srcMac d →
      s.dhcp.Answered nakType d.payload p → s.dhcp.state ≠ .renewing
  | _ => True

theorem OwnsAddress.of_follows {s : Rx}
    (h : s.arp.hostIp = (s.dhcp.lease.map Lease.ip).getD .unspecified) : OwnsAddress s := by
  refine ⟨h, ?_⟩
  intro payload now reply hreply
  obtain ⟨p, _, hp, ⟨_, htarget, hown⟩, _⟩ := Arp.handle_some hreply
  cases hl : s.dhcp.lease with
  | none =>
    rw [hl] at h
    exact absurd h hown
  | some lease =>
    rw [hl] at h
    exact ⟨p, lease, hp, rfl, htarget.trans h⟩

theorem OwnsAddress.kept {s t : Rx} (h : OwnsAddress s) (hip : t.arp.hostIp = s.arp.hostIp)
    (hlease : t.dhcp.lease = s.dhcp.lease) : OwnsAddress t := by
  refine .of_follows ?_
  rw [hip, hlease]
  exact h.follows

theorem DhcpStep.ownsAddress {s t : Rx} {srcMac : MacAddr} {d : UdpDatagram} (h : OwnsAddress s)
    (hnot : (DhcpClient.handle d.payload s.dhcp).1 ≠ .ok .nak)
    (hstep : DhcpStep hostMac clock s srcMac d t) : OwnsAddress t := by
  cases hstep with
  | unused r _ => exact h.kept rfl rfl
  | offer c msg frame hout _ =>
    cases hout with
    | offer p _ _ _ _ _ _ _ => exact h.kept rfl rfl
  | ack c lease hout =>
    cases hout with
    | ack p _ _ _ _ _ _ _ => exact .of_follows rfl
  | nak c hout =>
    cases hout with
    | nak p hp hx hm ht hs =>
      exact absurd (DhcpClient.handle_nak_iff.mpr ⟨p, hp, hx, hm, ht, hs⟩) hnot

theorem ownsAddress_nak {s t : Rx} (hs : InStep s) (hmac : DhcpClient.Settled hostMac s.dhcp)
    (h : OwnsAddress s) (hstate : s.dhcp.state = .requesting ∨ s.dhcp.state = .renewing)
    (hip : t.arp.hostIp = s.arp.hostIp) (hlease : t.dhcp.lease = none) :
    OwnsAddress t ↔ s.dhcp.state ≠ .renewing := by
  have hheld := hs.lease
  have hfollows := h.follows
  constructor
  · intro ht hrenewing
    obtain ⟨lease, hl⟩ := Option.isSome_iff_exists.mp (hheld.mpr (Or.inr hrenewing))
    have hleft := ht.follows
    rw [hip, hfollows, hl, hlease] at hleft
    exact hmac.lease lease hl hleft
  · intro hnot
    have hrequesting := hstate.resolve_right hnot
    have hnone : s.dhcp.lease = none := by
      cases hl : s.dhcp.lease with
      | none => rfl
      | some lease =>
        have hsome := hheld.mp (by rw [hl]; rfl)
        rw [hrequesting] at hsome
        rcases hsome with hsome | hsome <;> cases hsome
    refine .of_follows ?_
    rw [hip, hfollows, hnone, hlease]

theorem keepsLease_of_not_reply {s : Rx} {i : Input} (hi : ¬ IsReply hostMac i) :
    KeepsLease hostMac s i := by
  cases i with
  | poll => trivial
  | request lastRequest => trivial
  | frame bytes =>
    intro srcMac d p hc
    exact absurd ⟨bytes, srcMac, d, rfl, hc⟩ hi

theorem ownsAddress_step {past : List (Rx × Input)} {s : Rx}
    (run : Machine.Run (thread hostMac clock) Machine.any past s) (i : Input) (h : OwnsAddress s) :
    OwnsAddress (take hostMac clock s i) ↔ KeepsLease hostMac s i := by
  by_cases hi : IsReply hostMac i
  · obtain ⟨bytes, srcMac, d, rfl, hc⟩ := hi
    by_cases hnak : (DhcpClient.handle d.payload s.dhcp).1 = .ok .nak
    · obtain ⟨p, hp⟩ := DhcpClient.handle_nak_iff.mp hnak
      obtain ⟨calls, hclient⟩ := thread_client run
      rw [take, handleFrame_dhcp hc, handleDhcp_nak hnak]
      have hstep := @ownsAddress_nak hostMac s
        (take hostMac clock s (.frame bytes)) (thread_inStep run) (DhcpClient.run_settled hclient) h
        hp.2.2.2.2
      rw [take, handleFrame_dhcp hc, handleDhcp_nak hnak] at hstep
      refine (hstep rfl rfl).trans ?_
      constructor
      · intro hnot srcMac' d' p' _ _
        exact hnot
      · intro hkeeps
        exact hkeeps srcMac d p hc hp
    · refine iff_of_true ((take_dhcp hc s).ownsAddress h hnak) ?_
      intro srcMac' d' p hc' hp
      cases hc.symm.trans hc'
      exact absurd (DhcpClient.handle_nak_iff.mpr ⟨p, hp⟩) hnak
  · have hsame := @take_undisturbed hostMac clock s i hi
    exact iff_of_true (h.kept hsame.hostIp hsame.lease) (keepsLease_of_not_reply hi)

/-- The table answers for the leased address, and only for it, in every state of a run
exactly if no held lease is refused in it. -/
theorem owns_address_iff {past : List (Rx × Input)} {s : Rx}
    (run : Machine.Run (thread hostMac clock) Machine.any past s) :
    (∀ x ∈ past, OwnsAddress x.1) ∧ OwnsAddress s ↔ ∀ x ∈ past, KeepsLease hostMac x.1 x.2 := by
  refine run.always_iff (P := OwnsAddress) ?_ ?_
  · obtain ⟨frame, hstart⟩ := @start_eq hostMac clock (initial hostMac)
    rw [thread, hstart]
    exact .of_follows rfl
  · intro _ s i run h
    exact ownsAddress_step run i h

theorem owns_address_iff_bound :
    ∃ past s, Machine.Run (thread testMac fun n => ofSecs n) Machine.any past s ∧
      s.dhcp.state = .bound ∧ s.arp.hostIp = testOffered ∧ OwnsAddress s := by
  have run := (Machine.Run.start (m := thread testMac fun n => ofSecs n)).takeAll
    [.frame (testFrame offerType []), .frame (testFrame ackType [])]
  refine ⟨_, _, run, by decide +kernel, by decide +kernel, ((owns_address_iff run).mpr ?_).2⟩
  intro x hx
  simp only [Machine.trace, List.nil_append, List.mem_cons, List.not_mem_nil, or_false] at hx
  rcases hx with rfl | rfl
  · intro srcMac d p _ _
    decide +kernel
  · intro srcMac d p _ _
    decide +kernel

/-- After a NAK to a renewal the thread holds no lease, and answers for the old address. -/
theorem refused_address_answered :
    ¬ ∀ hostMac clock s, Reachable hostMac clock s → OwnsAddress s := by
  intro h
  have howns := h testMac (fun n => ofSecs n) _ (after_reachable
    [Packet.append [] (testFrame offerType []) 0,
      Packet.append [] (testFrame ackType [(optRenewalTime, [0, 0, 0, 0])]) 0,
      Packet.append [] (testFrame nakType []) 0])
  have hfollows := howns.follows
  revert hfollows
  decide +kernel

end Muta.Link.Rx
