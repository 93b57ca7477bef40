import Muta.Netstack.Ethernet

/-!
# The DHCP client

A state machine that consumes message bytes and produces the next message to send.
`parse` walks the options of a reply with every access checked. What `handle` can do
to the client is said once, by `Outcome`.
-/

namespace Muta.Netstack

open Act
set_option autoImplicit false

structure Lease where
  ip : Ipv4Addr
  netmask : Ipv4Addr
  router : Option Ipv4Addr
  dns : List Ipv4Addr
  domain : Option String
  mtu : Option UInt16
  serverId : Ipv4Addr
  leaseTime : Duration
  renewalTime : Duration
deriving DecidableEq, Repr

def Lease.prefixLen (lease : Lease) : UInt8 := UInt8.ofNat lease.netmask.bits.cpop.toNat

namespace Dhcp

variable {ε : Type}

def clientPort : UInt16 := 68
def serverPort : UInt16 := 67

def opRequest : UInt8 := 1
def opReply : UInt8 := 2
def htypeEthernet : UInt8 := 1
def flagBroadcast : UInt16 := 0x8000
def magicCookie : Bytes := [0x63, 0x82, 0x53, 0x63]
def bootpLen : Nat := 236

def optPad : UInt8 := 0
def optSubnetMask : UInt8 := 1
def optRouter : UInt8 := 3
def optDns : UInt8 := 6
def optDomainName : UInt8 := 15
def optInterfaceMtu : UInt8 := 26
def optRequestedIp : UInt8 := 50
def optLeaseTime : UInt8 := 51
def optMessageType : UInt8 := 53
def optServerId : UInt8 := 54
def optParamRequest : UInt8 := 55
def optRenewalTime : UInt8 := 58
def optClientId : UInt8 := 61
def optEnd : UInt8 := 255

def discoverType : UInt8 := 1
def offerType : UInt8 := 2
def requestType : UInt8 := 3
def ackType : UInt8 := 5
def nakType : UInt8 := 6

inductive State where
  | init
  | selecting
  | requesting
  | bound
  | renewing
deriving DecidableEq, Repr

inductive Event where
  | ignored
  | send (msg : Bytes)
  | bound (lease : Lease)
  | nak
deriving DecidableEq, Repr

end Dhcp

structure DhcpClient where
  mac : MacAddr
  xid : UInt32
  state : Dhcp.State
  offered : Option Ipv4Addr
  serverId : Option Ipv4Addr
  lease : Option Lease
deriving DecidableEq, Repr

namespace Dhcp

variable {ε : Type}

def pushOption (m : Bytes) (code : UInt8) (data : Bytes) : Bytes :=
  m ++ [code, UInt8.ofNat data.length] ++ data

def pushAddress (m : Bytes) (code : UInt8) : Option Ipv4Addr → Bytes
  | some ip => pushOption m code ip.octets
  | none => m

def pushParamRequest (m : Bytes) (messageType : UInt8) : Bytes :=
  if messageType = discoverType ∨ messageType = requestType then
    pushOption m optParamRequest [optSubnetMask, optRouter, optDns, optDomainName, optInterfaceMtu,
      optLeaseTime, optRenewalTime]
  else
    m

def bootp (c : DhcpClient) (ciaddr : Ipv4Addr) : Bytes :=
  let flags := if ciaddr.isUnspecified then flagBroadcast else 0
  let m : Bytes := [opRequest, htypeEthernet, 6, 0] ++ u32beBytes c.xid ++ u16beBytes 0 ++
    u16beBytes flags ++ ciaddr.octets ++ [0, 0, 0, 0] ++ [0, 0, 0, 0] ++ [0, 0, 0, 0] ++ c.mac.octets
  m.resize bootpLen ++ magicCookie

def build (c : DhcpClient) (messageType : UInt8) (ciaddr : Ipv4Addr)
    (requestedIp serverId : Option Ipv4Addr) : Checked ε Bytes := do
  let m := pushOption (bootp c ciaddr) optMessageType [messageType]
  let m := pushOption m optClientId (htypeEthernet :: c.mac.octets)
  let m := pushAddress m optRequestedIp requestedIp
  let m := pushAddress m optServerId serverId
  let m := pushParamRequest m messageType
  let m := m ++ [optEnd]
  return m.resize (max m.length 300)

structure Parsed where
  xid : UInt32 := 0
  yiaddr : Ipv4Addr := .unspecified
  siaddr : Ipv4Addr := .unspecified
  chaddr : MacAddr := .zero
  messageType : UInt8 := 0
  netmask : Option Ipv4Addr := none
  router : Option Ipv4Addr := none
  dns : List Ipv4Addr := []
  domain : Option String := none
  mtu : Option UInt16 := none
  serverId : Option Ipv4Addr := none
  leaseTime : Option Duration := none
  renewalTime : Option Duration := none
deriving DecidableEq, Repr

def chunksExact4 : Bytes → List Bytes
  | a :: b :: c :: d :: rest => [a, b, c, d] :: chunksExact4 rest
  | _ => []

def ipv4s : List Bytes → Checked ε (List Ipv4Addr)
  | [] => .ok []
  | chunk :: chunks => do
    let ip ← ipv4 chunk
    let ips ← ipv4s chunks
    return ip :: ips

def seconds (b : Bytes) : Checked ε Duration := do
  return ofSecs (u32be (← b.index 0) (← b.index 1) (← b.index 2) (← b.index 3)).toNat

/-- Text up to trailing NULs, if it is UTF-8 and not empty. -/
def domainName (data : Bytes) : Option String :=
  match String.fromUTF8? ⟨data.toArray⟩ with
  | none => none
  | some s =>
    let kept := (s.toList.reverse.dropWhile fun c => c = Char.ofNat 0).reverse
    if kept.isEmpty then none else some (String.ofList kept)

def setOption (p : Parsed) (code : UInt8) (data : Bytes) : Checked ε Parsed :=
  if code = optMessageType ∧ 1 ≤ data.length then do
    return { p with messageType := ← data.index 0 }
  else if code = optSubnetMask ∧ 4 ≤ data.length then do
    return { p with netmask := some (← ipv4 data) }
  else if code = optRouter ∧ 4 ≤ data.length then do
    return { p with router := some (← ipv4 data) }
  else if code = optServerId ∧ 4 ≤ data.length then do
    return { p with serverId := some (← ipv4 data) }
  else if code = optDns then do
    return { p with dns := ← ipv4s (chunksExact4 data) }
  else if code = optDomainName then
    .ok { p with domain := domainName data }
  else if code = optInterfaceMtu ∧ 2 ≤ data.length then do
    return { p with mtu := some (u16be (← data.index 0) (← data.index 1)) }
  else if code = optLeaseTime ∧ 4 ≤ data.length then do
    return { p with leaseTime := some (← seconds data) }
  else if code = optRenewalTime ∧ 4 ≤ data.length then do
    return { p with renewalTime := some (← seconds data) }
  else
    .ok p

/-- The option loop, granted one iteration for every byte. -/
def parseOptions : Nat → Bytes → Parsed → Checked Error Parsed
  | 0, _, p => .ok p
  | _ + 1, [], p => .ok p
  | n + 1, code :: tail, p =>
    if code = optPad then parseOptions n tail p
    else if code = optEnd then .ok p
    else
      match tail with
      | [] => .err .truncated
      | len :: tail =>
        match Bytes.range? tail 0 len.toNat with
        | none => .err .truncated
        | some data => do
          let rest ← Bytes.slice tail len.toNat tail.length
          let p ← setOption p code data
          parseOptions n rest p

def parse (buf : Bytes) : Checked Error Parsed := do
  Checked.rejectIf (buf.length < bootpLen + 4) .truncated
  Checked.rejectIf ((← buf.index 0) ≠ opReply) (.malformed "not a BOOTP reply")
  Checked.rejectIf ((← buf.slice bootpLen (bootpLen + 4)) ≠ magicCookie)
    (.malformed "bad magic cookie")
  let p : Parsed := {
    xid := u32be (← buf.index 4) (← buf.index 5) (← buf.index 6) (← buf.index 7)
    yiaddr := ← ipv4 (← buf.slice 16 20)
    siaddr := ← ipv4 (← buf.slice 20 24)
    chaddr := ← MacAddr.fromSlice (← buf.slice 28 34) }
  let rest ← buf.slice (bootpLen + 4) buf.length
  let p ← parseOptions rest.length rest p
  Checked.rejectIf (p.messageType = 0) (.malformed "no DHCP message type")
  return p

theorem mem_chunksExact4 {data chunk : Bytes} (h : chunk ∈ chunksExact4 data) :
    chunk.length = 4 := by
  induction data using chunksExact4.induct with
  | case1 a b c d rest ih =>
    rw [chunksExact4] at h
    rcases List.mem_cons.mp h with rfl | h
    · rfl
    · exact ih h
  | case2 data hne =>
    rw [chunksExact4] at h
    · cases h
    · exact hne

theorem ipv4s_safe {chunks : List Bytes} (h : ∀ c ∈ chunks, c.length = 4) :
    (ipv4s chunks : Checked ε _).Safe := by
  induction chunks with
  | nil => exact Checked.safe_ok _
  | cons chunk chunks ih =>
    have hchunk := h chunk List.mem_cons_self
    refine (ipv4_safe (Nat.le_of_eq hchunk.symm)).bind fun _ _ => ?_
    refine (ih fun c hc => h c (List.mem_cons_of_mem chunk hc)).bind fun _ _ => ?_
    exact Checked.safe_ok _

theorem seconds_safe {b : Bytes} (h : 4 ≤ b.length) : (seconds b : Checked ε _).Safe := by
  unfold seconds
  simp (disch := omega) only [Bytes.index_ok, Checked.ok_bind]
  exact Checked.safe_ok _

theorem setOption_safe (p : Parsed) (code : UInt8) (data : Bytes) :
    (setOption p code data : Checked ε _).Safe := by
  have hdone : ∀ q : Parsed, (pure q : Checked ε Parsed).Safe := fun q => Checked.safe_ok q
  unfold setOption
  apply Checked.safe_ite
  · intro h
    exact (Bytes.index_safe (by omega)).bind fun _ _ => hdone _
  intro _
  apply Checked.safe_ite
  · intro h
    exact (ipv4_safe h.2).bind fun _ _ => hdone _
  intro _
  apply Checked.safe_ite
  · intro h
    exact (ipv4_safe h.2).bind fun _ _ => hdone _
  intro _
  apply Checked.safe_ite
  · intro h
    exact (ipv4_safe h.2).bind fun _ _ => hdone _
  intro _
  apply Checked.safe_ite
  · intro _
    exact (ipv4s_safe fun _ hc => mem_chunksExact4 hc).bind fun _ _ => hdone _
  intro _
  apply Checked.safe_ite
  · intro _
    exact hdone _
  intro _
  apply Checked.safe_ite
  · intro h
    exact (Bytes.index_safe (by omega)).bind fun _ _ =>
      (Bytes.index_safe (by omega)).bind fun _ _ => hdone _
  intro _
  apply Checked.safe_ite
  · intro h
    exact (seconds_safe h.2).bind fun _ _ => hdone _
  intro _
  apply Checked.safe_ite
  · intro h
    exact (seconds_safe h.2).bind fun _ _ => hdone _
  · intro _
    exact hdone _

theorem parseOptions_safe (n : Nat) (rest : Bytes) (p : Parsed) : (parseOptions n rest p).Safe := by
  induction n generalizing rest p with
  | zero => exact Checked.safe_ok _
  | succ n ih =>
    cases rest with
    | nil => exact Checked.safe_ok _
    | cons code tail =>
      unfold parseOptions
      split
      · exact ih tail p
      split
      · exact Checked.safe_ok _
      cases tail with
      | nil => exact Checked.safe_err _
      | cons len tail =>
        dsimp only
        split
        · exact Checked.safe_err _
        · rename_i data hdata
          obtain ⟨⟨_, hlen⟩, _⟩ := Bytes.range?_eq_some.mp hdata
          refine (Bytes.slice_safe hlen (Nat.le_refl _)).bind fun rest _ => ?_
          refine (setOption_safe p code data).bind fun q _ => ?_
          exact ih rest q

theorem parse_safe (buf : Bytes) : (parse buf).Safe := by
  have hlen : bootpLen = 236 := rfl
  unfold parse
  refine Checked.safe_rejectIf fun hshort => ?_
  simp (disch := omega) only [Bytes.index_ok, Bytes.slice_ok, Checked.ok_bind]
  refine Checked.safe_rejectIf fun _ => ?_
  refine Checked.safe_rejectIf fun _ => ?_
  have hyiaddr : (buf.sub 16 20).length = 4 := Bytes.length_sub 16 (by omega)
  have hsiaddr : (buf.sub 20 24).length = 4 := Bytes.length_sub 20 (by omega)
  refine (ipv4_safe (Nat.le_of_eq hyiaddr.symm)).bind fun _ _ => ?_
  refine (ipv4_safe (Nat.le_of_eq hsiaddr.symm)).bind fun _ _ => ?_
  refine (MacAddr.fromSlice_safe _).bind fun _ _ => ?_
  refine (parseOptions_safe _ _ _).bind fun _ _ => ?_
  refine Checked.safe_rejectIf fun _ => ?_
  exact Checked.safe_ok _

def option (code : UInt8) (data : Bytes) : Bytes := [code, UInt8.ofNat data.length] ++ data

def addressOption (code : UInt8) : Option Ipv4Addr → Bytes
  | some ip => option code ip.octets
  | none => []

def paramRequest (messageType : UInt8) : Bytes :=
  if messageType = discoverType ∨ messageType = requestType then
    option optParamRequest [optSubnetMask, optRouter, optDns, optDomainName, optInterfaceMtu,
      optLeaseTime, optRenewalTime]
  else
    []

def message (c : DhcpClient) (messageType : UInt8) (ciaddr : Ipv4Addr)
    (requestedIp serverId : Option Ipv4Addr) : Bytes :=
  Bytes.resize (bootp c ciaddr ++ option optMessageType [messageType] ++
    option optClientId (htypeEthernet :: c.mac.octets) ++ addressOption optRequestedIp requestedIp ++
    addressOption optServerId serverId ++ paramRequest messageType ++ [optEnd]) 300

theorem pushOption_eq (m : Bytes) (code : UInt8) (data : Bytes) :
    pushOption m code data = m ++ option code data := by
  rw [pushOption, option, List.append_assoc]

theorem pushAddress_eq (m : Bytes) (code : UInt8) (ip : Option Ipv4Addr) :
    pushAddress m code ip = m ++ addressOption code ip := by
  cases ip with
  | none => exact (List.append_nil m).symm
  | some ip => exact pushOption_eq m code ip.octets

theorem pushParamRequest_eq (m : Bytes) (messageType : UInt8) :
    pushParamRequest m messageType = m ++ paramRequest messageType := by
  unfold pushParamRequest paramRequest
  split
  · exact pushOption_eq m optParamRequest _
  · rw [List.append_nil]

theorem length_bootp (c : DhcpClient) (ciaddr : Ipv4Addr) : (bootp c ciaddr).length = 240 := by
  rw [bootp, List.length_append, Bytes.length_resize]
  rfl

theorem length_addressOption_le (code : UInt8) (ip : Option Ipv4Addr) :
    (addressOption code ip).length ≤ 6 := by
  cases ip with
  | none => exact Nat.zero_le _
  | some ip => exact Nat.le_refl _

theorem length_paramRequest_le (messageType : UInt8) : (paramRequest messageType).length ≤ 9 := by
  unfold paramRequest
  split
  · exact Nat.le_refl _
  · exact Nat.zero_le _

theorem length_message (c : DhcpClient) (messageType : UInt8) (ciaddr : Ipv4Addr)
    (requestedIp serverId : Option Ipv4Addr) :
    (message c messageType ciaddr requestedIp serverId).length = 300 := Bytes.length_resize _ _

theorem build_eq (c : DhcpClient) (messageType : UInt8) (ciaddr : Ipv4Addr)
    (requestedIp serverId : Option Ipv4Addr) :
    (build c messageType ciaddr requestedIp serverId : Checked ε _) =
      .ok (message c messageType ciaddr requestedIp serverId) := by
  simp only [build, pushOption_eq, pushAddress_eq, pushParamRequest_eq, Checked.pure_eq, message]
  have hreq := length_addressOption_le optRequestedIp requestedIp
  have hsrv := length_addressOption_le optServerId serverId
  have hparam := length_paramRequest_le messageType
  rw [Nat.max_eq_right]
  · simp only [List.length_append, length_bootp, option, List.length_cons, List.length_nil,
      MacAddr.length_octets]
    omega

end Dhcp

namespace DhcpClient

open Dhcp

variable {ε : Type}

def new (mac : MacAddr) (xid : UInt32) : DhcpClient :=
  { mac, xid, state := .init, offered := none, serverId := none, lease := none }

def nextXid (xid : UInt32) : UInt32 := 1013904223 + 1664525 * xid

def fresh (c : DhcpClient) : DhcpClient :=
  { c with state := .selecting, offered := none, serverId := none, xid := nextXid c.xid }

@[simp] theorem fresh_state (c : DhcpClient) : c.fresh.state = .selecting := rfl

@[simp] theorem fresh_lease (c : DhcpClient) : c.fresh.lease = c.lease := rfl

def discover : Act Fault DhcpClient Bytes := do
  update fresh
  sure (build (← Act.state) discoverType .unspecified none none)

def retransmit : Act Fault DhcpClient (Option Bytes) := do
  let c ← Act.state
  match c.state with
  | .selecting => return some (← sure (build c discoverType .unspecified none none))
  | .requesting => return some (← sure (build c requestType .unspecified c.offered c.serverId))
  | .renewing =>
    match c.lease with
    | none => return none
    | some lease => return some (← sure (build c requestType lease.ip none none))
  | .init => return none
  | .bound => return none

def renew : Act Fault DhcpClient (Option Bytes) := do
  match (← Act.state).lease with
  | none => return none
  | some lease =>
    update fun c => { c with state := .renewing }
    return some (← sure (build (← Act.state) requestType lease.ip none none))

def leaseFrom (c : DhcpClient) (p : Parsed) : Checked Error Lease := do
  Checked.rejectIf p.yiaddr.isUnspecified (.malformed "ACK without an address")
  let serverId := (p.serverId.or c.serverId).getD p.siaddr
  let router := p.router.or (if serverId.isUnspecified then none else some serverId)
  let leaseTime := p.leaseTime.getD (ofSecs 3600)
  return {
    ip := p.yiaddr
    netmask := p.netmask.getD ⟨255, 255, 255, 0⟩
    router, dns := p.dns, domain := p.domain, mtu := p.mtu, serverId, leaseTime
    renewalTime := p.renewalTime.getD (leaseTime / 2) }

def handle (msg : Bytes) : Act (Halt Error) DhcpClient Event := do
  let p ← checked (parse msg)
  let c ← Act.state
  if p.xid ≠ c.xid ∨ p.chaddr ≠ c.mac then
    return .ignored
  else if c.state = .selecting ∧ p.messageType = offerType then
    update fun c =>
      { c with offered := some p.yiaddr, serverId := p.serverId, state := .requesting }
    let m ← checked (build (← Act.state) requestType .unspecified (some p.yiaddr) p.serverId)
    return .send m
  else if (c.state = .requesting ∨ c.state = .renewing) ∧ p.messageType = ackType then
    let lease ← checked (leaseFrom c p)
    update fun c => { c with state := .bound, lease := some lease }
    return .bound lease
  else if (c.state = .requesting ∨ c.state = .renewing) ∧ p.messageType = nakType then
    update fun c => { c with state := .init, lease := none, offered := none }
    return .nak
  else
    return .ignored

theorem discover_eq (c : DhcpClient) :
    discover c =
      (.ok (message c.fresh discoverType .unspecified none none), c.fresh) := by
  simp only [discover, build_eq]
  rfl

def pending (c : DhcpClient) : Option Bytes :=
  match c.state with
  | .selecting => some (message c discoverType .unspecified none none)
  | .requesting => some (message c requestType .unspecified c.offered c.serverId)
  | .renewing => c.lease.map fun lease => message c requestType lease.ip none none
  | .init => none
  | .bound => none

theorem retransmit_eq (c : DhcpClient) :
    retransmit c = (.ok c.pending, c) := by
  simp only [retransmit, build_eq, bind_apply, state_apply, pending]
  cases c.state with
  | renewing => cases c.lease <;> rfl
  | _ => rfl

theorem renew_eq {c : DhcpClient} {lease : Lease} (h : c.lease = some lease) :
    renew c =
      (.ok (some (message { c with state := .renewing } requestType lease.ip none none)),
        { c with state := .renewing }) := by
  obtain ⟨mac, xid, phase, offered, serverId, _⟩ := c
  subst h
  simp only [renew, build_eq]
  rfl

theorem renew_none {c : DhcpClient} (h : c.lease = none) : renew c = (.ok none, c) := by
  obtain ⟨mac, xid, phase, offered, serverId, _⟩ := c
  subst h
  rfl

theorem length_pending {c : DhcpClient} {msg : Bytes} (h : c.pending = some msg) :
    msg.length = 300 := by
  unfold pending at h
  split at h
  · rw [← Option.some.inj h]
    exact length_message _ _ _ _ _
  · rw [← Option.some.inj h]
    exact length_message _ _ _ _ _
  · obtain ⟨lease, _, rfl⟩ := Option.map_eq_some_iff.mp h
    exact length_message _ _ _ _ _
  · cases h
  · cases h

/-- Everything `handle` can do with a message: reject or ignore it without a trace,
or take one of the three transitions. -/
inductive Outcome (c : DhcpClient) (msg : Bytes) :
    Except (Halt Error) Event × DhcpClient → Prop where
  | rejected (e : Error) : Outcome c msg (.error (.err e), c)
  | ignored : Outcome c msg (.ok .ignored, c)
  | offer (p : Parsed) (request : Bytes) : parse msg = .ok p → p.xid = c.xid →
      p.chaddr = c.mac → p.messageType = offerType → c.state = .selecting →
      request = message { c with
          offered := some p.yiaddr, serverId := p.serverId, state := .requesting }
        requestType .unspecified (some p.yiaddr) p.serverId →
      Outcome c msg (.ok (.send request),
        { c with offered := some p.yiaddr, serverId := p.serverId, state := .requesting })
  | ack (p : Parsed) (lease : Lease) : parse msg = .ok p → p.xid = c.xid → p.chaddr = c.mac →
      p.messageType = ackType → (c.state = .requesting ∨ c.state = .renewing) →
      leaseFrom c p = .ok lease →
      Outcome c msg (.ok (.bound lease), { c with state := .bound, lease := some lease })
  | nak (p : Parsed) : parse msg = .ok p → p.xid = c.xid → p.chaddr = c.mac →
      p.messageType = nakType → (c.state = .requesting ∨ c.state = .renewing) →
      Outcome c msg (.ok .nak, { c with state := .init, lease := none, offered := none })

theorem leaseFrom_safe (c : DhcpClient) (p : Parsed) : (leaseFrom c p).Safe := by
  unfold leaseFrom
  refine Checked.safe_rejectIf fun _ => ?_
  exact Checked.safe_ok _

theorem handle_outcome (c : DhcpClient) (msg : Bytes) : Outcome c msg (handle msg c) := by
  cases hp : parse msg with
  | fault f => exact absurd hp (parse_safe msg f)
  | err e =>
    rw [handle, hp]
    exact .rejected e
  | ok p =>
    simp only [handle, hp, checked, build_eq, bind_apply, pure_apply, state_apply]
    split
    · exact .ignored
    rename_i hours
    obtain ⟨hxid, hmac⟩ : p.xid = c.xid ∧ p.chaddr = c.mac := by
      constructor
      · exact Decidable.byContradiction fun h => hours (Or.inl h)
      · exact Decidable.byContradiction fun h => hours (Or.inr h)
    split
    · rename_i hs
      exact .offer p _ hp hxid hmac hs.2 hs.1 rfl
    split
    · rename_i hs
      cases hl : leaseFrom c p with
      | fault f => exact absurd hl (leaseFrom_safe c p f)
      | err e => exact .rejected e
      | ok lease => exact .ack p lease hp hxid hmac hs.2 hs.1 hl
    split
    · rename_i hs
      exact .nak p hp hxid hmac hs.2 hs.1
    · exact .ignored

theorem length_send {c c' : DhcpClient} {msg request : Bytes}
    (h : handle msg c = (.ok (.send request), c')) : request.length = 300 := by
  have hout := handle_outcome c msg
  rw [h] at hout
  cases hout with
  | offer p _ _ _ _ _ _ hreq => rw [hreq, length_message]

def Answered (c : DhcpClient) (t : UInt8) (msg : Bytes) (p : Parsed) : Prop :=
  parse msg = .ok p ∧ p.xid = c.xid ∧ p.chaddr = c.mac ∧ p.messageType = t ∧
    (c.state = .requesting ∨ c.state = .renewing)

def leaseOf (c : DhcpClient) (p : Parsed) : Lease :=
  let serverId := (p.serverId.or c.serverId).getD p.siaddr
  let leaseTime := p.leaseTime.getD (ofSecs 3600)
  { ip := p.yiaddr
    netmask := p.netmask.getD ⟨255, 255, 255, 0⟩
    router := p.router.or (if serverId.isUnspecified then none else some serverId)
    dns := p.dns, domain := p.domain, mtu := p.mtu, serverId, leaseTime
    renewalTime := p.renewalTime.getD (leaseTime / 2) }

theorem leaseFrom_iff {c : DhcpClient} {p : Parsed} {lease : Lease} :
    leaseFrom c p = .ok lease ↔ p.yiaddr ≠ .unspecified ∧ lease = leaseOf c p := by
  unfold leaseFrom
  by_cases hip : p.yiaddr = .unspecified
  · have hbool : p.yiaddr.isUnspecified = true := by simp [Ipv4Addr.isUnspecified, hip]
    rw [Checked.rejectIf_bind hbool]
    constructor
    · intro h
      cases h
    · intro h
      exact absurd hip h.1
  · have hbool : ¬ p.yiaddr.isUnspecified := by simpa [Ipv4Addr.isUnspecified] using hip
    rw [Checked.rejectIf_not_bind hbool]
    constructor
    · intro h
      cases h
      exact ⟨hip, rfl⟩
    · intro h
      rw [h.2]
      rfl

theorem leaseFrom_eq_ok {c : DhcpClient} {p : Parsed} {lease : Lease} (h : leaseFrom c p = .ok lease) :
    p.yiaddr ≠ .unspecified ∧ lease.ip = p.yiaddr ∧
      lease.renewalTime = p.renewalTime.getD (p.leaseTime.getD (ofSecs 3600) / 2) := by
  obtain ⟨hip, rfl⟩ := leaseFrom_iff.mp h
  exact ⟨hip, rfl, rfl⟩

theorem leaseFrom_ok {c : DhcpClient} {p : Parsed} (h : p.yiaddr ≠ .unspecified) :
    ∃ lease, leaseFrom c p = .ok lease := ⟨leaseOf c p, leaseFrom_iff.mpr ⟨h, rfl⟩⟩

theorem handle_offer {c : DhcpClient} {msg : Bytes} {p : Parsed} (hp : parse msg = .ok p)
    (hxid : p.xid = c.xid) (hmac : p.chaddr = c.mac) (htype : p.messageType = offerType)
    (hs : c.state = .selecting) :
    handle msg c =
      (.ok (.send (message { c with
          offered := some p.yiaddr, serverId := p.serverId, state := .requesting }
        requestType .unspecified (some p.yiaddr) p.serverId)),
      { c with offered := some p.yiaddr, serverId := p.serverId, state := .requesting }) := by
  have hne : ¬ (p.xid ≠ c.xid ∨ p.chaddr ≠ c.mac) := by simp [hxid, hmac]
  simp only [handle, hp, checked, build_eq, bind_apply, pure_apply, state_apply, if_neg hne,
    if_pos (And.intro hs htype), update_apply]

theorem handle_ack {c : DhcpClient} {msg : Bytes} {p : Parsed} {lease : Lease}
    (h : Answered c ackType msg p) (hl : leaseFrom c p = .ok lease) :
    handle msg c = (.ok (.bound lease), { c with state := .bound, lease := some lease }) := by
  obtain ⟨hp, hxid, hmac, htype, hs⟩ := h
  have hne : ¬ (p.xid ≠ c.xid ∨ p.chaddr ≠ c.mac) := by simp [hxid, hmac]
  have hoffer : ¬ (c.state = .selecting ∧ p.messageType = offerType) := by
    intro hoffer
    rw [htype] at hoffer
    exact absurd hoffer.2 (by decide)
  simp only [handle, hp, checked, bind_apply, pure_apply, state_apply, if_neg hne, if_neg hoffer,
    if_pos (And.intro hs htype), hl, update_apply]

theorem handle_nak {c : DhcpClient} {msg : Bytes} {p : Parsed} (h : Answered c nakType msg p) :
    handle msg c = (.ok .nak, { c with state := .init, lease := none, offered := none }) := by
  obtain ⟨hp, hxid, hmac, htype, hs⟩ := h
  have hne : ¬ (p.xid ≠ c.xid ∨ p.chaddr ≠ c.mac) := by simp [hxid, hmac]
  have hother : ∀ t, t ≠ nakType → p.messageType ≠ t := fun t ht heq => ht (heq ▸ htype)
  have hoffer : ¬ (c.state = .selecting ∧ p.messageType = offerType) :=
    fun hoffer => hother offerType (by decide) hoffer.2
  have hack : ¬ ((c.state = .requesting ∨ c.state = .renewing) ∧ p.messageType = ackType) :=
    fun hack => hother ackType (by decide) hack.2
  simp only [handle, hp, checked, bind_apply, pure_apply, state_apply, if_neg hne, if_neg hoffer,
    if_neg hack, if_pos (And.intro hs htype), update_apply]

theorem handle_unexpected {c : DhcpClient} {msg : Bytes} {p : Parsed} (hp : parse msg = .ok p)
    (hoffer : ¬ (c.state = .selecting ∧ p.messageType = offerType))
    (hack : ¬ ((c.state = .requesting ∨ c.state = .renewing) ∧ p.messageType = ackType))
    (hnak : ¬ ((c.state = .requesting ∨ c.state = .renewing) ∧ p.messageType = nakType)) :
    handle msg c = (.ok .ignored, c) := by
  simp only [handle, hp, checked, bind_apply, pure_apply, state_apply, if_neg hoffer, if_neg hack,
    if_neg hnak]
  split <;> rfl

theorem handle_bound_iff {c : DhcpClient} {msg : Bytes} {lease : Lease} :
    (handle msg c).1 = .ok (.bound lease) ↔
      ∃ p, Answered c ackType msg p ∧ leaseFrom c p = .ok lease := by
  constructor
  · intro h
    have hout := handle_outcome c msg
    generalize handle msg c = r at h hout
    cases hout with
    | ack p l hp hx hm ht hs hl =>
      cases h
      exact ⟨p, ⟨hp, hx, hm, ht, hs⟩, hl⟩
    | _ => cases h
  · intro h
    obtain ⟨p, hp, hl⟩ := h
    rw [handle_ack hp hl]

theorem handle_nak_iff {c : DhcpClient} {msg : Bytes} :
    (handle msg c).1 = .ok .nak ↔ ∃ p, Answered c nakType msg p := by
  constructor
  · intro h
    have hout := handle_outcome c msg
    generalize handle msg c = r at h hout
    cases hout with
    | nak p hp hx hm ht hs => exact ⟨p, hp, hx, hm, ht, hs⟩
    | _ => cases h
  · intro h
    obtain ⟨p, hp⟩ := h
    rw [handle_nak hp]

end DhcpClient

end Muta.Netstack
