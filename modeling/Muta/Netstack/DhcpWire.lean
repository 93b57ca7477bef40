import Muta.Netstack.Dhcp

/-!
# The client's messages, read back

A message is a fixed header, a cookie and a list of options. The readers below take it
apart the way a server does; `walk` goes through the options up to the end and
gives up on a list that is cut short. Every message the client builds is read back whole.
-/

namespace Muta.Netstack.Dhcp

set_option autoImplicit false

def xidOf (m : Bytes) : UInt32 := u32be (m.getD 4 0) (m.getD 5 0) (m.getD 6 0) (m.getD 7 0)

def flagsOf (m : Bytes) : UInt16 := u16be (m.getD 10 0) (m.getD 11 0)

def ciaddrOf (m : Bytes) : Ipv4Addr := ⟨m.getD 12 0, m.getD 13 0, m.getD 14 0, m.getD 15 0⟩

def chaddrOf (m : Bytes) : Bytes := m.sub 28 34

def walk : Nat → Bytes → Option (List (UInt8 × Bytes))
  | 0, _ => none
  | _ + 1, [] => none
  | n + 1, code :: tail =>
    if code = optPad then walk n tail
    else if code = optEnd then some []
    else
      match tail with
      | [] => none
      | len :: tail =>
        match Bytes.range? tail 0 len.toNat with
        | none => none
        | some data => (walk n (tail.drop len.toNat)).map ((code, data) :: ·)

def options (m : Bytes) : Option (List (UInt8 × Bytes)) := walk m.length (m.drop (bootpLen + 4))

def header (c : DhcpClient) (ciaddr : Ipv4Addr) : Bytes :=
  [opRequest, htypeEthernet, 6, 0] ++ u32beBytes c.xid ++ u16beBytes 0 ++
    u16beBytes (if ciaddr.isUnspecified then flagBroadcast else 0) ++ ciaddr.octets ++
    [0, 0, 0, 0] ++ [0, 0, 0, 0] ++ [0, 0, 0, 0] ++ c.mac.octets

def address (code : UInt8) (ip : Option Ipv4Addr) : List (UInt8 × Bytes) :=
  (ip.map fun ip => (code, ip.octets)).toList

def optionList (c : DhcpClient) (messageType : UInt8) (requestedIp serverId : Option Ipv4Addr) :
    List (UInt8 × Bytes) :=
  [(optMessageType, [messageType]), (optClientId, htypeEthernet :: c.mac.octets)] ++
    address optRequestedIp requestedIp ++ address optServerId serverId ++
    if messageType = discoverType ∨ messageType = requestType then
      [(optParamRequest, [optSubnetMask, optRouter, optDns, optDomainName, optInterfaceMtu,
        optLeaseTime, optRenewalTime])]
    else
      []

def encode (opts : List (UInt8 × Bytes)) : Bytes := (opts.map fun o => option o.1 o.2).flatten

theorem length_le_encode (opts : List (UInt8 × Bytes)) : opts.length ≤ (encode opts).length := by
  induction opts with
  | nil => exact Nat.le_refl _
  | cons o opts ih =>
    have hcons : encode (o :: opts) = option o.1 o.2 ++ encode opts := by simp [encode]
    rw [hcons, List.length_append, List.length_cons, option]
    simp only [List.length_append, List.length_cons]
    omega

theorem encode_append (xs ys : List (UInt8 × Bytes)) : encode (xs ++ ys) = encode xs ++ encode ys := by
  simp [encode]

theorem encode_address (code : UInt8) (ip : Option Ipv4Addr) :
    encode (address code ip) = addressOption code ip := by
  cases ip with
  | none => rfl
  | some ip => rfl

theorem encode_optionList (c : DhcpClient) (messageType : UInt8)
    (requestedIp serverId : Option Ipv4Addr) :
    encode (optionList c messageType requestedIp serverId) =
      option optMessageType [messageType] ++ option optClientId (htypeEthernet :: c.mac.octets) ++
        addressOption optRequestedIp requestedIp ++ addressOption optServerId serverId ++
        paramRequest messageType := by
  have hparam : encode (if messageType = discoverType ∨ messageType = requestType then
      [(optParamRequest, [optSubnetMask, optRouter, optDns, optDomainName, optInterfaceMtu,
        optLeaseTime, optRenewalTime])] else []) = paramRequest messageType := by
    unfold paramRequest
    split <;> rfl
  rw [optionList, encode_append, encode_append, encode_append, encode_address, encode_address, hparam]
  rfl

theorem resize_of_le {b : Bytes} {n : Nat} (h : b.length ≤ n) :
    b.resize n = b ++ List.replicate (n - b.length) 0 := by
  rw [Bytes.resize, List.take_of_length_le h]

theorem bootp_eq (c : DhcpClient) (ciaddr : Ipv4Addr) :
    bootp c ciaddr = header c ciaddr ++ List.replicate 202 0 ++ magicCookie := by
  have hlen : (header c ciaddr).length = 34 := rfl
  have hle : (header c ciaddr).length ≤ bootpLen := by
    rw [hlen]
    decide
  have hresize := resize_of_le hle
  rw [hlen, show bootpLen - 34 = 202 from rfl] at hresize
  rw [← hresize]
  rfl

theorem length_optionList_le (c : DhcpClient) (messageType : UInt8)
    (requestedIp serverId : Option Ipv4Addr) :
    (encode (optionList c messageType requestedIp serverId)).length ≤ 33 := by
  have hreq := length_addressOption_le optRequestedIp requestedIp
  have hsrv := length_addressOption_le optServerId serverId
  have hparam := length_paramRequest_le messageType
  rw [encode_optionList]
  simp only [List.length_append, option, List.length_cons, List.length_nil, MacAddr.length_octets]
  omega

theorem message_eq (c : DhcpClient) (messageType : UInt8) (ciaddr : Ipv4Addr)
    (requestedIp serverId : Option Ipv4Addr) : ∃ pad,
    message c messageType ciaddr requestedIp serverId =
      header c ciaddr ++ (List.replicate 202 0 ++ magicCookie ++
        (encode (optionList c messageType requestedIp serverId) ++ optEnd :: List.replicate pad 0)) := by
  have hopts := length_optionList_le c messageType requestedIp serverId
  have hlen := length_bootp c ciaddr
  have hmessage : message c messageType ciaddr requestedIp serverId =
      Bytes.resize (bootp c ciaddr ++
        (encode (optionList c messageType requestedIp serverId) ++ [optEnd])) 300 := by
    rw [encode_optionList, message]
    simp only [List.append_assoc]
  have hle : (bootp c ciaddr ++
      (encode (optionList c messageType requestedIp serverId) ++ [optEnd])).length ≤ 300 := by
    rw [List.length_append, List.length_append, hlen, List.length_singleton]
    omega
  rw [hmessage, resize_of_le hle]
  generalize 300 - _ = pad
  refine ⟨pad, ?_⟩
  rw [bootp_eq]
  simp only [List.append_assoc, List.singleton_append]

def Proper (o : UInt8 × Bytes) : Prop := o.1 ≠ optPad ∧ o.1 ≠ optEnd ∧ o.2.length < 256

theorem walk_option {o : UInt8 × Bytes} (h : Proper o) (n : Nat) (rest : Bytes) :
    walk (n + 1) (option o.1 o.2 ++ rest) = (walk n rest).map (o :: ·) := by
  obtain ⟨code, data⟩ := o
  obtain ⟨hpad, hend, hlen⟩ := h
  have htoNat : (UInt8.ofNat data.length).toNat = data.length := UInt8.toNat_ofNat_of_lt' hlen
  have hrange : Bytes.range? (data ++ rest) 0 data.length = some data := by
    rw [Bytes.range?_eq (Nat.zero_le _) (by simp)]
    simp [Bytes.sub]
  have hcons : option code data ++ rest = code :: UInt8.ofNat data.length :: (data ++ rest) := rfl
  rw [hcons, walk, if_neg hpad, if_neg hend, htoNat, hrange]
  simp

theorem walk_encode {opts : List (UInt8 × Bytes)} (h : ∀ o ∈ opts, Proper o) {n : Nat}
    (hn : opts.length < n) (rest : Bytes) : walk n (encode opts ++ optEnd :: rest) = some opts := by
  induction opts generalizing n with
  | nil =>
    obtain ⟨n, rfl⟩ : ∃ k, n = k + 1 := ⟨n - 1, by simp at hn; omega⟩
    rfl
  | cons o opts ih =>
    rw [List.length_cons] at hn
    obtain ⟨n, rfl⟩ : ∃ k, n = k + 1 := ⟨n - 1, by omega⟩
    have hrest := ih (fun x hx => h x (List.mem_cons_of_mem o hx)) (show opts.length < n by omega)
    have hsplit : encode (o :: opts) ++ optEnd :: rest =
        option o.1 o.2 ++ (encode opts ++ optEnd :: rest) := by simp [encode]
    rw [hsplit, walk_option (h o List.mem_cons_self), hrest]
    rfl

theorem address_proper {code : UInt8} (hpad : code ≠ optPad) (hend : code ≠ optEnd)
    (ip : Option Ipv4Addr) : ∀ o ∈ address code ip, Proper o := by
  intro o ho
  cases ip with
  | none => cases ho
  | some ip =>
    rw [address, Option.map_some, Option.toList_some, List.mem_singleton] at ho
    subst ho
    exact ⟨hpad, hend, by simp⟩

theorem optionList_proper (c : DhcpClient) (messageType : UInt8)
    (requestedIp serverId : Option Ipv4Addr) :
    ∀ o ∈ optionList c messageType requestedIp serverId, Proper o := by
  intro o ho
  simp only [optionList, List.mem_append] at ho
  rcases ho with ((ho | ho) | ho) | ho
  · simp only [List.mem_cons, List.not_mem_nil, or_false] at ho
    rcases ho with rfl | rfl
    · exact ⟨show optMessageType ≠ optPad by decide, show optMessageType ≠ optEnd by decide, by simp⟩
    · exact ⟨show optClientId ≠ optPad by decide, show optClientId ≠ optEnd by decide, by simp⟩
  · exact address_proper (by decide) (by decide) _ o ho
  · exact address_proper (by decide) (by decide) _ o ho
  · split at ho
    · rw [List.mem_singleton] at ho
      subst ho
      exact ⟨by decide, by decide, by decide⟩
    · cases ho

section ReadBack

variable (c : DhcpClient) (messageType : UInt8) (ciaddr : Ipv4Addr)
variable (requestedIp serverId : Option Ipv4Addr)

theorem xidOf_message : xidOf (message c messageType ciaddr requestedIp serverId) = c.xid := by
  obtain ⟨pad, hm⟩ := message_eq c messageType ciaddr requestedIp serverId
  rw [hm]
  exact u32le_bytes c.xid

theorem flagsOf_message :
    flagsOf (message c messageType ciaddr requestedIp serverId) =
      if ciaddr.isUnspecified then flagBroadcast else 0 := by
  obtain ⟨pad, hm⟩ := message_eq c messageType ciaddr requestedIp serverId
  rw [hm]
  exact u16be_bytes _

theorem ciaddrOf_message :
    ciaddrOf (message c messageType ciaddr requestedIp serverId) = ciaddr := by
  obtain ⟨pad, hm⟩ := message_eq c messageType ciaddr requestedIp serverId
  rw [hm]
  rfl

theorem chaddrOf_message :
    chaddrOf (message c messageType ciaddr requestedIp serverId) = c.mac.octets := by
  obtain ⟨pad, hm⟩ := message_eq c messageType ciaddr requestedIp serverId
  rw [hm]
  rfl

theorem options_message :
    options (message c messageType ciaddr requestedIp serverId) =
      some (optionList c messageType requestedIp serverId) := by
  have hlen := length_message c messageType ciaddr requestedIp serverId
  obtain ⟨pad, hm⟩ := message_eq c messageType ciaddr requestedIp serverId
  have hfixed : (header c ciaddr ++ (List.replicate 202 0 ++ magicCookie)).length = bootpLen + 4 := by
    rw [List.length_append, List.length_append, List.length_replicate]
    rfl
  have hcount : (optionList c messageType requestedIp serverId).length < 300 := by
    have hbytes := length_optionList_le c messageType requestedIp serverId
    exact Nat.lt_of_le_of_lt (Nat.le_trans (length_le_encode _) hbytes) (by decide)
  rw [options, hlen, hm, ← List.append_assoc, List.drop_left' hfixed]
  exact walk_encode (optionList_proper c messageType requestedIp serverId) hcount _

theorem flag_iff :
    flagsOf (message c messageType ciaddr requestedIp serverId) &&& flagBroadcast ≠ 0 ↔
      ciaddrOf (message c messageType ciaddr requestedIp serverId) = .unspecified := by
  rw [flagsOf_message, ciaddrOf_message, Ipv4Addr.isUnspecified]
  by_cases h : ciaddr = .unspecified
  · simp only [h, decide_true, if_true, iff_true]
    decide
  · simp [h]

theorem lookup_messageType :
    (optionList c messageType requestedIp serverId).lookup optMessageType = some [messageType] := rfl

theorem lookup_clientId :
    (optionList c messageType requestedIp serverId).lookup optClientId =
      some (htypeEthernet :: c.mac.octets) := rfl

theorem lookup_requestedIp :
    (optionList c messageType requestedIp serverId).lookup optRequestedIp =
      requestedIp.map Ipv4Addr.octets := by
  cases requestedIp with
  | some ip => rfl
  | none =>
    unfold optionList
    cases serverId with
    | some ip => split <;> rfl
    | none => split <;> rfl

theorem lookup_serverId :
    (optionList c messageType requestedIp serverId).lookup optServerId =
      serverId.map Ipv4Addr.octets := by
  unfold optionList
  cases requestedIp with
  | some ip =>
    cases serverId with
    | some ip => rfl
    | none => split <;> rfl
  | none =>
    cases serverId with
    | some ip => rfl
    | none => split <;> rfl

end ReadBack

def serverReply (mac : MacAddr) (server : Ipv4Addr) (xid : UInt32) (messageType : UInt8)
    (yiaddr : Ipv4Addr) (options : List (UInt8 × Bytes)) : Bytes :=
  Bytes.resize ([opReply, htypeEthernet, 6, 0] ++ u32beBytes xid ++ [0, 0, 0, 0] ++ [0, 0, 0, 0] ++
    yiaddr.octets ++ server.octets ++ [0, 0, 0, 0] ++ mac.octets) bootpLen ++ magicCookie ++
    option optMessageType [messageType] ++ encode options ++ [optEnd]

theorem length_serverReply (mac : MacAddr) (server : Ipv4Addr) (xid : UInt32) (messageType : UInt8)
    (yiaddr : Ipv4Addr) (options : List (UInt8 × Bytes)) :
    (serverReply mac server xid messageType yiaddr options).length =
      244 + (encode options).length := by
  simp only [serverReply, List.length_append, Bytes.length_resize]
  have hcookie : magicCookie.length = 4 := rfl
  have htype : (option optMessageType [messageType]).length = 3 := rfl
  rw [hcookie, htype, List.length_singleton, bootpLen]
  omega

end Muta.Netstack.Dhcp
