import Muta.Netstack.Ethernet

/-!
# ARP

The packet format and the table of learned addresses. The table is shared with the
tunnel's reader, so nothing is assumed about it between two calls.
-/

namespace Muta.Netstack

open Act
set_option autoImplicit false

structure ArpPacket where
  op : UInt16
  senderMac : MacAddr
  senderIp : Ipv4Addr
  targetMac : MacAddr
  targetIp : Ipv4Addr
deriving DecidableEq, Repr

structure Entry where
  mac : MacAddr
  learned : Instant
deriving DecidableEq, Repr

structure Arp where
  hostMac : MacAddr
  hostIp : Ipv4Addr
  cache : Ipv4Addr → Option Entry
  lastRequest : Ipv4Addr → Option Instant

namespace Arp

def opRequest : UInt16 := 1
def opReply : UInt16 := 2
def htypeEthernet : UInt16 := 1
def packetLen : Nat := 28
def entryTtl : Duration := ofSecs 300
def retryInterval : Duration := ofSecs 1

def parse (buf : Bytes) : Checked Error ArpPacket := do
  Checked.rejectIf (buf.length < packetLen) .truncated
  let htype := u16be (← buf.index 0) (← buf.index 1)
  let ptype := u16be (← buf.index 2) (← buf.index 3)
  Checked.rejectIf (htype ≠ htypeEthernet ∨ ptype ≠ Ethernet.ethertypeIpv4)
    (.malformed "not Ethernet/IPv4 ARP")
  Checked.rejectIf ((← buf.index 4) ≠ 6 ∨ (← buf.index 5) ≠ 4)
    (.malformed "unexpected ARP address sizes")
  return {
    op := u16be (← buf.index 6) (← buf.index 7)
    senderMac := ← MacAddr.fromSlice (← buf.slice 8 14)
    senderIp := ← ipv4 (← buf.slice 14 18)
    targetMac := ← MacAddr.fromSlice (← buf.slice 18 24)
    targetIp := ← ipv4 (← buf.slice 24 28) }

def build (p : ArpPacket) : Bytes :=
  u16beBytes htypeEthernet ++ u16beBytes Ethernet.ethertypeIpv4 ++ [6, 4] ++ u16beBytes p.op ++
    p.senderMac.octets ++ p.senderIp.octets ++ p.targetMac.octets ++ p.targetIp.octets

def new (hostMac : MacAddr) (hostIp : Ipv4Addr) : Arp :=
  { hostMac, hostIp, cache := fun _ => none, lastRequest := fun _ => none }

def setHostIp (a : Arp) (ip : Ipv4Addr) : Arp := { a with hostIp := ip }

def lookup (a : Arp) (ip : Ipv4Addr) (now : Instant) : Option MacAddr :=
  ((a.cache ip).filter fun e => now - e.learned < entryTtl).map Entry.mac

def insert (a : Arp) (ip : Ipv4Addr) (mac : MacAddr) (now : Instant) : Arp :=
  { a with cache := fun i => if i = ip then some { mac, learned := now } else a.cache i }

def request (ip : Ipv4Addr) (now : Instant) : Act Fault Arp (Option Bytes) := do
  let a ← state
  if (a.lastRequest ip).any fun sent => now - sent < retryInterval then
    return none
  update fun a => { a with lastRequest := fun i => if i = ip then some now else a.lastRequest i }
  let packet := build {
    op := opRequest, senderMac := a.hostMac, senderIp := a.hostIp, targetMac := MacAddr.zero,
    targetIp := ip }
  return some (← sure (Ethernet.build MacAddr.broadcast a.hostMac Ethernet.ethertypeArp packet))

/-- What any packet with a usable sender teaches. -/
def learned (a : Arp) (p : ArpPacket) (now : Instant) : Arp :=
  if !p.senderIp.isUnspecified && !p.senderMac.isMulticast then
    a.insert p.senderIp p.senderMac now
  else
    a

/-- Whether `handle` comes to `insert`, which takes the time. -/
def inserts (payload : Bytes) : Bool :=
  match parse payload with
  | .ok p => !p.senderIp.isUnspecified && !p.senderMac.isMulticast
  | _ => false

def handle (payload : Bytes) (now : Instant) : Act (Halt Error) Arp (Option Bytes) := do
  let p ← checked (parse payload)
  update fun a => a.learned p now
  let a ← state
  if p.op ≠ opRequest ∨ p.targetIp ≠ a.hostIp ∨ a.hostIp.isUnspecified then
    return none
  let reply := build {
    op := opReply, senderMac := a.hostMac, senderIp := a.hostIp, targetMac := p.senderMac,
    targetIp := p.senderIp }
  return some (← checked (Ethernet.build p.senderMac a.hostMac Ethernet.ethertypeArp reply))

theorem parse_safe (buf : Bytes) : (parse buf).Safe := by
  unfold parse
  refine Checked.safe_rejectIf fun hlen => ?_
  have hpl : packetLen = 28 := rfl
  simp (disch := omega) only [Bytes.index_ok, Bytes.slice_ok, Checked.ok_bind]
  refine Checked.safe_rejectIf fun _ => ?_
  refine Checked.safe_rejectIf fun _ => ?_
  have hsender : (buf.sub 14 18).length = 4 := Bytes.length_sub 14 (by omega)
  have htarget : (buf.sub 24 28).length = 4 := Bytes.length_sub 24 (by omega)
  refine (MacAddr.fromSlice_safe _).bind fun _ _ => ?_
  refine (ipv4_safe (Nat.le_of_eq hsender.symm)).bind fun _ _ => ?_
  refine (MacAddr.fromSlice_safe _).bind fun _ _ => ?_
  refine (ipv4_safe (Nat.le_of_eq htarget.symm)).bind fun _ _ => ?_
  exact Checked.safe_ok _

theorem length_build (p : ArpPacket) : (build p).length = packetLen := rfl

/-- A packet is read back, whatever comes after it. -/
theorem parse_build (p : ArpPacket) (pad : Bytes) : parse (build p ++ pad) = .ok p := by
  have hlen : (build p ++ pad).length = packetLen + pad.length := by
    rw [List.length_append, length_build]
  have hpl : packetLen = 28 := rfl
  unfold parse
  rw [Checked.rejectIf_not_bind (by omega)]
  simp (disch := omega) only [Bytes.index_ok, Bytes.slice_ok, Checked.ok_bind]
  have htypes : ¬ (u16be (build p ++ pad)[0] (build p ++ pad)[1] ≠ htypeEthernet ∨
      u16be (build p ++ pad)[2] (build p ++ pad)[3] ≠ Ethernet.ethertypeIpv4) := by
    intro h
    rcases h with h | h
    · exact h (u16be_bytes htypeEthernet)
    · exact h (u16be_bytes Ethernet.ethertypeIpv4)
  have hsizes : ¬ ((build p ++ pad)[4] ≠ 6 ∨ (build p ++ pad)[5] ≠ 4) := by
    intro h
    rcases h with h | h
    · exact h rfl
    · exact h rfl
  rw [Checked.rejectIf_not_bind htypes, Checked.rejectIf_not_bind hsizes]
  have hop : u16be (build p ++ pad)[6] (build p ++ pad)[7] = p.op := u16be_bytes p.op
  have hsenderMac : MacAddr.fromSlice ((build p ++ pad).sub 8 14) = .ok p.senderMac := rfl
  have hsenderIp : (ipv4 ((build p ++ pad).sub 14 18) : Checked Error _) = .ok p.senderIp := rfl
  have htargetMac : MacAddr.fromSlice ((build p ++ pad).sub 18 24) = .ok p.targetMac := rfl
  have htargetIp : (ipv4 ((build p ++ pad).sub 24 28) : Checked Error _) = .ok p.targetIp := rfl
  rw [hop, hsenderMac, hsenderIp, htargetMac, htargetIp]
  rfl

theorem build_frame {ε : Type} (dst src : MacAddr) (p : ArpPacket) :
    ∃ pad ≤ Ethernet.minFrameLen, (Ethernet.build dst src Ethernet.ethertypeArp (build p) : Checked ε _) =
      .ok (Ethernet.fields dst src Ethernet.ethertypeArp (build p ++ List.replicate pad 0)) := by
  apply Ethernet.build_ok
  rw [length_build]
  decide

def Usable (p : ArpPacket) : Prop := p.senderIp ≠ .unspecified ∧ p.senderMac.isMulticast = false

instance (p : ArpPacket) : Decidable (Usable p) := inferInstanceAs (Decidable (_ ∧ _))

section Learned

variable (a : Arp) (p : ArpPacket) (now : Instant)

theorem inserts_iff {payload : Bytes} (hp : parse payload = .ok p) : inserts payload ↔ Usable p := by
  simp [inserts, hp, Usable, Ipv4Addr.isUnspecified]

theorem learned_eq :
    a.learned p now = if Usable p then a.insert p.senderIp p.senderMac now else a := by
  have hiff : (!p.senderIp.isUnspecified && !p.senderMac.isMulticast) = true ↔ Usable p := by
    simp [Usable, Ipv4Addr.isUnspecified]
  unfold learned
  by_cases h : Usable p
  · rw [if_pos h, if_pos (hiff.mpr h)]
  · rw [if_neg h, if_neg fun hlearn => h (hiff.mp hlearn)]

/-- The time matters only where something is learned. -/
theorem learned_of_not_inserts {payload : Bytes} (hp : parse payload = .ok p)
    (h : ¬ inserts payload) : a.learned p now = a := by
  rw [inserts, hp] at h
  rw [learned, if_neg h]

@[simp] theorem learned_hostIp : (a.learned p now).hostIp = a.hostIp := by
  unfold learned
  split <;> rfl

@[simp] theorem learned_hostMac : (a.learned p now).hostMac = a.hostMac := by
  unfold learned
  split <;> rfl

@[simp] theorem learned_lastRequest : (a.learned p now).lastRequest = a.lastRequest := by
  unfold learned
  split <;> rfl

end Learned

theorem lookup_eq_some {a : Arp} {ip : Ipv4Addr} {now : Instant} {mac : MacAddr} :
    a.lookup ip now = some mac ↔
      ∃ e, a.cache ip = some e ∧ now - e.learned < entryTtl ∧ e.mac = mac := by
  simp [lookup, Option.map_eq_some_iff, Option.filter_eq_some_iff, and_assoc]

theorem lookup_eq_none {a : Arp} {ip : Ipv4Addr} {now : Instant} :
    a.lookup ip now = none ↔ ∀ e, a.cache ip = some e → entryTtl ≤ now - e.learned := by
  simp [lookup, Option.map_eq_none_iff, Option.filter_eq_none_iff]

section Spec

variable {a : Arp} {payload : Bytes} {p : ArpPacket}

def reply (a : Arp) (p : ArpPacket) : ArpPacket :=
  { op := opReply, senderMac := a.hostMac, senderIp := a.hostIp, targetMac := p.senderMac,
    targetIp := p.senderIp }

def Asked (a : Arp) (p : ArpPacket) : Prop :=
  p.op = opRequest ∧ p.targetIp = a.hostIp ∧ a.hostIp ≠ .unspecified

theorem handle_err {e : Error} (h : parse payload = .err e) (now : Instant) (a : Arp) :
    handle payload now a = (.error (.err e), a) := by
  rw [handle, h]
  rfl

theorem not_asked_iff :
    p.op ≠ opRequest ∨ p.targetIp ≠ a.hostIp ∨ a.hostIp.isUnspecified ↔ ¬ a.Asked p := by
  simp only [Asked, Ipv4Addr.isUnspecified, decide_eq_true_eq]
  constructor
  · intro h hasked
    rcases h with h | h | h
    · exact h hasked.1
    · exact h hasked.2.1
    · exact hasked.2.2 h
  · intro h
    by_cases hop : p.op = opRequest
    · by_cases htarget : p.targetIp = a.hostIp
      · right
        right
        by_contra hown
        exact h ⟨hop, htarget, hown⟩
      · exact Or.inr (Or.inl htarget)
    · exact Or.inl hop

theorem handle_silent (hp : parse payload = .ok p) (h : ¬ a.Asked p) (now : Instant) :
    handle payload now a = (.ok none, a.learned p now) := by
  rw [handle, hp]
  simp only [checked, bind_apply, pure_apply, update_apply, state_apply, learned_hostIp,
    if_pos (not_asked_iff.mpr h)]

theorem handle_asked (hp : parse payload = .ok p) (h : a.Asked p) (now : Instant) :
    ∃ pad ≤ Ethernet.minFrameLen, handle payload now a =
      (.ok (some (Ethernet.fields p.senderMac a.hostMac Ethernet.ethertypeArp
        (build (a.reply p) ++ List.replicate pad 0))), a.learned p now) := by
  have hnot := fun hsilent => not_asked_iff.mp hsilent h
  obtain ⟨pad, hpad, hbuild⟩ := @build_frame Error p.senderMac a.hostMac (a.reply p)
  refine ⟨pad, hpad, ?_⟩
  rw [handle, hp]
  simp only [checked, bind_apply, pure_apply, update_apply, state_apply, learned_hostIp,
    learned_hostMac, if_neg hnot]
  rw [reply] at hbuild
  rw [hbuild]
  rfl

theorem handle_ok (hp : parse payload = .ok p) (now : Instant) (a : Arp) :
    ∃ r, handle payload now a = (.ok r, a.learned p now) := by
  by_cases h : a.Asked p
  · obtain ⟨pad, _, hreply⟩ := handle_asked hp h now
    exact ⟨_, hreply⟩
  · exact ⟨none, handle_silent hp h now⟩

theorem handle_untimed (h : ¬ inserts payload) (now now' : Instant) :
    handle payload now a = handle payload now' a := by
  cases hp : parse payload with
  | fault f => exact absurd hp (parse_safe payload f)
  | err e => rw [handle_err hp, handle_err hp]
  | ok p =>
    rw [handle, handle, hp]
    simp only [checked, bind_apply, pure_apply, update_apply, learned_of_not_inserts a p _ hp h]

theorem handle_some {answer : Bytes} {now : Instant}
    (h : (handle payload now a).1 = .ok (some answer)) :
    ∃ p pad, parse payload = .ok p ∧ a.Asked p ∧ pad ≤ Ethernet.minFrameLen ∧
      answer = Ethernet.fields p.senderMac a.hostMac Ethernet.ethertypeArp
        (build (a.reply p) ++ List.replicate pad 0) := by
  cases hp : parse payload with
  | fault f => exact absurd hp (parse_safe payload f)
  | err e =>
    rw [handle_err hp] at h
    cases h
  | ok p =>
    by_cases hasked : a.Asked p
    · obtain ⟨pad, hpad, hreply⟩ := handle_asked hp hasked now
      rw [hreply] at h
      cases h
      exact ⟨p, pad, rfl, hasked, hpad, rfl⟩
    · rw [handle_silent hp hasked] at h
      cases h

def Limited (a : Arp) (ip : Ipv4Addr) (now : Instant) : Prop :=
  ∃ sent, a.lastRequest ip = some sent ∧ now - sent < retryInterval

def noted (a : Arp) (ip : Ipv4Addr) (now : Instant) : Arp :=
  { a with lastRequest := fun i => if i = ip then some now else a.lastRequest i }

def question (a : Arp) (ip : Ipv4Addr) : ArpPacket :=
  { op := opRequest, senderMac := a.hostMac, senderIp := a.hostIp, targetMac := .zero, targetIp := ip }

theorem limited_iff (a : Arp) (ip : Ipv4Addr) (now : Instant) :
    ((a.lastRequest ip).any fun sent => now - sent < retryInterval) = true ↔ a.Limited ip now := by
  simp [Limited, Option.any_eq_true]

theorem request_limited {ip : Ipv4Addr} {now : Instant} (h : a.Limited ip now) :
    request ip now a = (.ok none, a) := by
  have hany := (limited_iff a ip now).mpr h
  simp only [request, bind_apply, state_apply, hany]
  rfl

theorem request_sends {ip : Ipv4Addr} {now : Instant} (h : ¬ a.Limited ip now) :
    ∃ pad ≤ Ethernet.minFrameLen, request ip now a =
      (.ok (some (Ethernet.fields .broadcast a.hostMac Ethernet.ethertypeArp
        (build (a.question ip) ++ List.replicate pad 0))), a.noted ip now) := by
  have hany : ¬ ((a.lastRequest ip).any fun sent => now - sent < retryInterval) = true :=
    fun hany => h ((limited_iff a ip now).mp hany)
  obtain ⟨pad, hpad, hbuild⟩ := @build_frame Empty .broadcast a.hostMac (a.question ip)
  refine ⟨pad, hpad, ?_⟩
  simp only [request, bind_apply, state_apply, if_neg hany, update_apply, pure_apply]
  rw [question] at hbuild
  rw [hbuild]
  rfl

end Spec

end Arp

end Muta.Netstack
