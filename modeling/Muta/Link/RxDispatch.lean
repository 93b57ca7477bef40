import Muta.Link.RxStep

/-!
# Where received packets go

The sink gets the payload of every IPv4 frame addressed to the host or to a group,
except replies to the DHCP client, and nothing else; frames that are too short, for
another host or of another type leave no trace. The conditions are on the raw bytes
of a frame.
-/

namespace Muta.Link.Rx

open Usb Act Netstack Dhcp
set_option autoImplicit false

variable (hostMac : MacAddr)

/-- A whole header, with the host's address or the group bit in front. -/
def Addressed (f : Bytes) : Prop :=
  14 ≤ f.length ∧ (f.take 6 = hostMac.octets ∨ f.headD 0 &&& 1 ≠ 0)

def IsIpv4 (f : Bytes) : Prop := f.sub 12 14 = [0x08, 0x00]

def IsArp (f : Bytes) : Prop := f.sub 12 14 = [0x08, 0x06]

/-- A frame that is neither too short, nor for another host, nor of another type. -/
def Relevant (f : Bytes) : Prop := Addressed hostMac f ∧ (IsIpv4 f ∨ IsArp f)

def ForSink (f : Bytes) : Prop :=
  Addressed hostMac f ∧ IsIpv4 f ∧ dhcpReply (f.drop 14) = none

instance (f : Bytes) : Decidable (Addressed hostMac f) := inferInstanceAs (Decidable (_ ∧ _))
instance (f : Bytes) : Decidable (IsIpv4 f) := inferInstanceAs (Decidable (_ = _))
instance (f : Bytes) : Decidable (IsArp f) := inferInstanceAs (Decidable (_ = _))
instance (f : Bytes) : Decidable (Relevant hostMac f) := inferInstanceAs (Decidable (_ ∧ _))
instance (f : Bytes) : Decidable (ForSink hostMac f) := inferInstanceAs (Decidable (_ ∧ _))

def dhcpMessage (f : Bytes) : Option Bytes :=
  if Addressed hostMac f ∧ IsIpv4 f then (dhcpReply (f.drop 14)).map UdpDatagram.payload else none

def delivered (log : List Effect) : List Bytes := log.filterMap fun e =>
  match e with
  | .deliver packet => some packet
  | _ => none

def handledMessages (log : List Effect) : List Bytes := log.filterMap fun e =>
  match e with
  | .handled msg _ => some msg
  | _ => none

section Classes

variable (dst src : MacAddr) (ethertype : UInt16) (payload : Bytes)

theorem addressed_fields :
    Addressed hostMac (Ethernet.fields dst src ethertype payload) ↔
      dst = hostMac ∨ dst.isMulticast = true := by
  have hlen : 14 ≤ (Ethernet.fields dst src ethertype payload).length := by
    rw [Ethernet.length_fields]
    exact Nat.le_add_right _ _
  have htake : (Ethernet.fields dst src ethertype payload).take 6 = dst.octets := rfl
  have hhead : (Ethernet.fields dst src ethertype payload).headD 0 = dst.m0 := rfl
  rw [Addressed, htake, hhead, MacAddr.octets_inj, MacAddr.isMulticast, decide_eq_true_eq]
  exact and_iff_right hlen

theorem isIpv4_fields :
    IsIpv4 (Ethernet.fields dst src ethertype payload) ↔ ethertype = Ethernet.ethertypeIpv4 := by
  have htype : (Ethernet.fields dst src ethertype payload).sub 12 14 = u16beBytes ethertype := rfl
  have hbytes : [0x08, 0x00] = u16beBytes Ethernet.ethertypeIpv4 := by decide
  rw [IsIpv4, htype, hbytes, u16beBytes_inj]

theorem isArp_fields :
    IsArp (Ethernet.fields dst src ethertype payload) ↔ ethertype = Ethernet.ethertypeArp := by
  have htype : (Ethernet.fields dst src ethertype payload).sub 12 14 = u16beBytes ethertype := rfl
  have hbytes : [0x08, 0x06] = u16beBytes Ethernet.ethertypeArp := by decide
  rw [IsArp, htype, hbytes, u16beBytes_inj]

theorem classify_fields :
    classify hostMac (Ethernet.fields dst src ethertype payload) =
      if dst = hostMac ∨ dst.isMulticast = true then
        if ethertype = Ethernet.ethertypeArp then .arp payload
        else if ethertype = Ethernet.ethertypeIpv4 then
          match dhcpReply payload with
          | some d => .dhcp src d
          | none => .sink payload
        else .skip
      else .skip := by
  rw [classify, Ethernet.parse_fields]
  dsimp only
  by_cases hdst : dst = hostMac ∨ dst.isMulticast = true
  · have hother : ¬ (dst ≠ hostMac ∧ (!dst.isMulticast) = true) := by
      rintro ⟨hne, hm⟩
      rcases hdst with h | h
      · exact hne h
      · rw [h] at hm
        cases hm
    exact (if_neg hother).trans (if_pos hdst).symm
  · have hother : dst ≠ hostMac ∧ (!dst.isMulticast) = true := by simpa using not_or.mp hdst
    exact (if_pos hother).trans (if_neg hdst).symm

end Classes

theorem short_or_fields (f : Bytes) :
    (f.length < 14 ∧ classify hostMac f = .skip) ∨
      ∃ dst src ethertype payload, f = Ethernet.fields dst src ethertype payload := by
  by_cases h : f.length < Ethernet.headerLen
  · refine Or.inl ⟨h, ?_⟩
    rw [classify, Ethernet.parse_short h]
  · exact Or.inr (Ethernet.exists_fields (Nat.le_of_not_lt h))

theorem classify_skip {f : Bytes} (h : ¬ Relevant hostMac f) : classify hostMac f = .skip := by
  rcases short_or_fields hostMac f with ⟨_, hskip⟩ | ⟨dst, src, ethertype, payload, rfl⟩
  · exact hskip
  · rw [Relevant, addressed_fields, isIpv4_fields, isArp_fields] at h
    rw [classify_fields]
    split
    · rename_i hdst
      split
      · rename_i harp
        exact absurd ⟨hdst, Or.inr harp⟩ h
      split
      · rename_i hip
        exact absurd ⟨hdst, Or.inl hip⟩ h
      · rfl
    · rfl

def Class.packet : Class → Option Bytes
  | .sink packet => some packet
  | _ => none

def Class.message : Class → Option Bytes
  | .dhcp _ d => some d.payload
  | _ => none

theorem not_addressed_of_short {f : Bytes} (h : f.length < 14) : ¬ Addressed hostMac f :=
  fun ha => absurd ha.1 (Nat.not_le.mpr h)

theorem classify_packet (f : Bytes) :
    (classify hostMac f).packet = if ForSink hostMac f then some (f.drop 14) else none := by
  rcases short_or_fields hostMac f with ⟨hshort, hskip⟩ | ⟨dst, src, ethertype, payload, rfl⟩
  · rw [hskip, if_neg]
    · rfl
    · exact fun h => not_addressed_of_short hostMac hshort h.1
  · have hdrop : (Ethernet.fields dst src ethertype payload).drop 14 = payload := rfl
    rw [classify_fields]
    simp only [ForSink, addressed_fields, isIpv4_fields, hdrop]
    split
    · rename_i hdst
      split
      · rename_i harp
        rw [if_neg]
        · rfl
        · rintro ⟨_, hip, _⟩
          rw [harp] at hip
          exact absurd hip (by decide)
      split
      · rename_i hip
        cases hd : dhcpReply payload with
        | none => rw [if_pos ⟨hdst, hip, rfl⟩]; rfl
        | some d => rw [if_neg (fun h => absurd h.2.2 (by simp))]; rfl
      · rename_i hip
        rw [if_neg (fun h => hip h.2.1)]
        rfl
    · rename_i hdst
      rw [if_neg (fun h => hdst h.1)]
      rfl

theorem classify_message (f : Bytes) :
    (classify hostMac f).message = dhcpMessage hostMac f := by
  rcases short_or_fields hostMac f with ⟨hshort, hskip⟩ | ⟨dst, src, ethertype, payload, rfl⟩
  · rw [hskip, dhcpMessage, if_neg]
    · rfl
    · exact fun h => not_addressed_of_short hostMac hshort h.1
  · have hdrop : (Ethernet.fields dst src ethertype payload).drop 14 = payload := rfl
    rw [classify_fields]
    simp only [dhcpMessage, addressed_fields, isIpv4_fields, hdrop]
    split
    · rename_i hdst
      split
      · rename_i harp
        rw [if_neg]
        · rfl
        · rintro ⟨_, hip⟩
          rw [harp] at hip
          exact absurd hip (by decide)
      split
      · rename_i hip
        rw [if_pos ⟨hdst, hip⟩]
        cases dhcpReply payload <;> rfl
      · rename_i hip
        rw [if_neg (fun h => hip h.2)]
        rfl
    · rename_i hdst
      rw [if_neg (fun h => hdst h.1)]
      rfl

variable {hostMac} {clock : Nat → Instant}

theorem FrameStep.log {c : Class} {s t : Rx} (h : FrameStep hostMac clock s c t) :
    ∃ new, t.log = s.log ++ new ∧ delivered new = c.packet.toList ∧
      handledMessages new = c.message.toList := by
  cases h with
  | skip => exact ⟨[], by simp, rfl, rfl⟩
  | sink packet => exact ⟨_, rfl, rfl, rfl⟩
  | arpBad payload e _ => exact ⟨[], by simp, rfl, rfl⟩
  | arp payload p reply _ => cases reply <;> exact ⟨_, rfl, rfl, rfl⟩
  | dhcp srcMac d _ hstep => cases hstep <;> exact ⟨_, rfl, rfl, rfl⟩

theorem FrameSteps.log {fs : List Bytes} {s t : Rx} (h : FrameSteps hostMac clock s fs t) :
    ∃ new, t.log = s.log ++ new ∧
      delivered new = fs.filterMap (fun f => (classify hostMac f).packet) ∧
      handledMessages new = fs.filterMap (fun f => (classify hostMac f).message) := by
  induction h with
  | nil s => exact ⟨[], by simp, rfl, rfl⟩
  | @cons s t u f fs hstep _ ih =>
    obtain ⟨new, hlog, hdel, hmsg⟩ := hstep.log
    obtain ⟨later, hlater, hdel', hmsg'⟩ := ih
    refine ⟨new ++ later, ?_, ?_, ?_⟩
    · rw [hlater, hlog, List.append_assoc]
    · rw [delivered, List.filterMap_append, List.filterMap_cons]
      rw [delivered] at hdel hdel'
      rw [hdel, hdel']
      cases (classify hostMac f).packet <;> rfl
    · rw [handledMessages, List.filterMap_append, List.filterMap_cons]
      rw [handledMessages] at hmsg hmsg'
      rw [hmsg, hmsg']
      cases (classify hostMac f).message <;> rfl

theorem filterMap_packet (fs : List Bytes) :
    fs.filterMap (fun f => (classify hostMac f).packet) =
      (fs.filter (fun f => ForSink hostMac f)).map (·.drop 14) := by
  induction fs with
  | nil => rfl
  | cons f fs ih =>
    rw [List.filterMap_cons, classify_packet, List.filter_cons]
    by_cases h : ForSink hostMac f
    · simp [h, ih]
    · simp [h, ih]

theorem handleAll_relevant (fs : List Bytes) (s : Rx) :
    handleAll hostMac clock fs s =
      handleAll hostMac clock (fs.filter fun f => Relevant hostMac f) s := by
  induction fs generalizing s with
  | nil => rfl
  | cons f fs ih =>
    obtain ⟨t, hframe, hstep⟩ := @handleFrame_step hostMac clock f s
    rw [handleAll, bind_apply_ok _ _ hframe, ih t, List.filter_cons]
    by_cases h : Relevant hostMac f
    · rw [if_pos (by simpa using h), handleAll, bind_apply_ok _ _ hframe]
    · rw [if_neg (by simpa using h)]
      rw [classify_skip hostMac h] at hstep
      cases hstep
      rfl

end Muta.Link.Rx
