import Muta.Netstack.Ethernet

/-!
# IPv4 and UDP

Just enough to carry DHCP. The checksum is summed in 32 bits with every addition
checked; what it comes to is said where packets are looked at as a receiver does.
-/

namespace Muta.Netstack

set_option autoImplicit false

structure UdpDatagram where
  srcIp : Ipv4Addr
  dstIp : Ipv4Addr
  srcPort : UInt16
  dstPort : UInt16
  payload : Bytes
deriving DecidableEq, Repr

namespace Ipv4

variable {ε : Type}

def protoUdp : UInt8 := 17
def ipv4HeaderLen : Nat := 20
def udpHeaderLen : Nat := 8

/-- Add the 16-bit words of `bytes`; the byte left over, if any, comes back. -/
def sumWords (sum : Nat) : Bytes → Checked ε (Nat × Option UInt8)
  | a :: b :: rest => do
    let sum ← inWord 32 (sum + (u16be a b).toNat)
    sumWords sum rest
  | [last] => .ok (sum, some last)
  | [] => .ok (sum, none)

/-- A byte left over from the parts before is paired with the first byte of `part`. -/
def sumPart (sum : Nat) (carryByte : Option UInt8) (part : Bytes) :
    Checked ε (Nat × Option UInt8) :=
  match carryByte with
  | none => sumWords sum part
  | some high => do
    let sum ← inWord 32 (sum + (u16be high (part.headD 0)).toNat)
    sumWords sum part.tail

def sumParts (sum : Nat) (carryByte : Option UInt8) : List Bytes → Checked ε Nat
  | part :: parts => do
    let (sum, carryByte) ← sumPart sum carryByte part
    sumParts sum carryByte parts
  | [] =>
    match carryByte with
    | some high => inWord 32 (sum + (u16be high 0).toNat)
    | none => .ok sum

def fold (sum : Nat) : Nat :=
  if sum / 2 ^ 16 = 0 then sum else fold (sum % 2 ^ 16 + sum / 2 ^ 16)
termination_by sum
decreasing_by omega

def checksum (parts : List Bytes) : Checked ε UInt16 := do
  let sum ← sumParts 0 none parts
  return ~~~ UInt16.ofNat (fold sum)

def ipHeader (d : UdpDatagram) (ipId : UInt16) (totalLen : Nat) (sum : UInt16) : Bytes :=
  [0x45, 0] ++ u16beBytes (UInt16.ofNat totalLen) ++ u16beBytes ipId ++ u16beBytes 0 ++
    [64, protoUdp] ++ u16beBytes sum ++ d.srcIp.octets ++ d.dstIp.octets

def udpSegment (d : UdpDatagram) (udpLen : Nat) (sum : UInt16) : Bytes :=
  u16beBytes d.srcPort ++ u16beBytes d.dstPort ++ u16beBytes (UInt16.ofNat udpLen) ++
    u16beBytes sum ++ d.payload

def pseudoHeader (d : UdpDatagram) (udpLen : Nat) : Bytes :=
  d.srcIp.octets ++ d.dstIp.octets ++
    [0, protoUdp, UInt8.ofNat (udpLen / 2 ^ 8), UInt8.ofNat udpLen]

/-- A complete packet; the checksums are computed with their own fields zero. -/
def buildUdp (d : UdpDatagram) (ipId : UInt16) : Checked ε Bytes := do
  let udpLen ← inWord 64 (udpHeaderLen + d.payload.length)
  let totalLen ← inWord 64 (ipv4HeaderLen + udpLen)
  let ipChecksum ← checksum [ipHeader d ipId totalLen 0]
  let udpChecksum ← checksum [pseudoHeader d udpLen, udpSegment d udpLen 0]
  let udpChecksum := if udpChecksum = 0 then 0xFFFF else udpChecksum
  return ipHeader d ipId totalLen ipChecksum ++ udpSegment d udpLen udpChecksum

def parseUdp (buf : Bytes) : Checked Error UdpDatagram := do
  Checked.rejectIf (buf.length < ipv4HeaderLen) .truncated
  Checked.rejectIf ((← buf.index 0) >>> 4 ≠ 4) (.malformed "not IPv4")
  let headerLen := ((← buf.index 0) &&& 0x0F).toNat * 4
  Checked.rejectIf (headerLen < ipv4HeaderLen ∨ headerLen > buf.length)
    (.malformed "bad IPv4 header length")
  Checked.rejectIf ((← buf.index 9) ≠ protoUdp) (.malformed "not UDP")
  Checked.rejectIf
    ((← buf.index 6) &&& 0x20 ≠ 0 ∨ u16be ((← buf.index 6) &&& 0x1F) (← buf.index 7) ≠ 0)
    (.malformed "fragmented")
  let totalLen := (u16be (← buf.index 2) (← buf.index 3)).toNat
  Checked.rejectIf (totalLen < headerLen ∨ totalLen > buf.length) .truncated
  let udp ← buf.slice headerLen totalLen
  Checked.rejectIf (udp.length < udpHeaderLen) .truncated
  let udpLen := (u16be (← udp.index 4) (← udp.index 5)).toNat
  Checked.rejectIf (udpLen < udpHeaderLen ∨ udpLen > udp.length) .truncated
  return {
    srcIp := ⟨← buf.index 12, ← buf.index 13, ← buf.index 14, ← buf.index 15⟩
    dstIp := ⟨← buf.index 16, ← buf.index 17, ← buf.index 18, ← buf.index 19⟩
    srcPort := u16be (← udp.index 0) (← udp.index 1)
    dstPort := u16be (← udp.index 2) (← udp.index 3)
    payload := ← udp.slice udpHeaderLen udpLen }

@[simp] theorem length_ipHeader (d : UdpDatagram) (ipId : UInt16) (n : Nat) (sum : UInt16) :
    (ipHeader d ipId n sum).length = 20 := rfl

@[simp] theorem length_udpSegment (d : UdpDatagram) (n : Nat) (sum : UInt16) :
    (udpSegment d n sum).length = 8 + d.payload.length := by
  simp only [udpSegment, List.length_append, length_u16beBytes]

@[simp] theorem length_pseudoHeader (d : UdpDatagram) (n : Nat) :
    (pseudoHeader d n).length = 12 := rfl

theorem parseUdp_safe (buf : Bytes) : (parseUdp buf).Safe := by
  have hip : ipv4HeaderLen = 20 := rfl
  have hudp : udpHeaderLen = 8 := rfl
  unfold parseUdp
  refine Checked.safe_rejectIf fun hlen => ?_
  simp (disch := omega) only [Bytes.index_ok, Checked.ok_bind]
  refine Checked.safe_rejectIf fun _ => ?_
  refine Checked.safe_rejectIf fun hheader => ?_
  refine Checked.safe_rejectIf fun _ => ?_
  refine Checked.safe_rejectIf fun _ => ?_
  refine Checked.safe_rejectIf fun htotal => ?_
  rw [Bytes.slice_ok (by omega) (by omega), Checked.ok_bind]
  generalize buf.sub _ _ = udp
  refine Checked.safe_rejectIf fun hshort => ?_
  simp (disch := omega) only [Bytes.index_ok, Checked.ok_bind]
  refine Checked.safe_rejectIf fun hdata => ?_
  rw [Bytes.slice_ok (by omega) (by omega), Checked.ok_bind]
  exact Checked.safe_ok _

def headerOfWords (words : Nat) (d : UdpDatagram) (ipId : UInt16) (totalLen : Nat) (sum : UInt16) :
    Bytes :=
  [UInt8.ofNat (0x40 + words), 0] ++ u16beBytes (UInt16.ofNat totalLen) ++ u16beBytes ipId ++
    u16beBytes 0 ++ [64, protoUdp] ++ u16beBytes sum ++ d.srcIp.octets ++ d.dstIp.octets

@[simp] theorem length_headerOfWords (words : Nat) (d : UdpDatagram) (ipId : UInt16) (n : Nat)
    (sum : UInt16) : (headerOfWords words d ipId n sum).length = 20 := rfl

/-- `buf` starts with a header of `words` words for `d`, without fragmentation. -/
structure IsHeader (words totalLen : Nat) (d : UdpDatagram) (buf : Bytes) : Prop where
  version : ∀ _ : 19 < buf.length, buf[0] = UInt8.ofNat (0x40 + words)
  totalLen : ∀ _ : 19 < buf.length, u16be buf[2] buf[3] = UInt16.ofNat totalLen
  flags : ∀ _ : 19 < buf.length, buf[6] = 0
  offset : ∀ _ : 19 < buf.length, buf[7] = 0
  protocol : ∀ _ : 19 < buf.length, buf[9] = protoUdp
  srcIp : ∀ _ : 19 < buf.length, (⟨buf[12], buf[13], buf[14], buf[15]⟩ : Ipv4Addr) = d.srcIp
  dstIp : ∀ _ : 19 < buf.length, (⟨buf[16], buf[17], buf[18], buf[19]⟩ : Ipv4Addr) = d.dstIp

theorem isHeader_append (words : Nat) (d : UdpDatagram) (ipId : UInt16) (n : Nat) (sum : UInt16)
    (rest : Bytes) : IsHeader words n d (headerOfWords words d ipId n sum ++ rest) where
  version _ := rfl
  totalLen _ := u16be_bytes _
  flags _ := rfl
  offset _ := rfl
  protocol _ := rfl
  srcIp _ := rfl
  dstIp _ := rfl

theorem version_words : ∀ k ≤ 10, UInt8.ofNat (0x40 + (5 + k)) >>> 4 = 4 ∧
    (UInt8.ofNat (0x40 + (5 + k)) &&& 0x0F).toNat * 4 = 20 + 4 * k := by
  decide

/-- `udp` carries the ports, the length and the payload of `d`. -/
structure IsSegment (d : UdpDatagram) (udp : Bytes) : Prop where
  length : udp.length = 8 + d.payload.length
  srcPort : ∀ _ : 7 < udp.length, u16be udp[0] udp[1] = d.srcPort
  dstPort : ∀ _ : 7 < udp.length, u16be udp[2] udp[3] = d.dstPort
  udpLen : ∀ _ : 7 < udp.length, u16be udp[4] udp[5] = UInt16.ofNat (8 + d.payload.length)
  payload : udp.drop 8 = d.payload

theorem isSegment_udpSegment (d : UdpDatagram) (sum : UInt16) :
    IsSegment d (udpSegment d (8 + d.payload.length) sum) where
  length := length_udpSegment d _ sum
  srcPort _ := u16be_bytes d.srcPort
  dstPort _ := u16be_bytes d.dstPort
  udpLen _ := u16be_bytes _
  payload := rfl

theorem parseUdp_eq {d : UdpDatagram} {buf udp : Bytes} {k : Nat} (hk : k ≤ 10)
    (hheader : IsHeader (5 + k) (28 + d.payload.length + 4 * k) d buf) (hudp : IsSegment d udp)
    (hslice : buf.sub (20 + 4 * k) (28 + d.payload.length + 4 * k) = udp)
    (h : 28 + d.payload.length + 4 * k ≤ 65535)
    (hroom : 28 + d.payload.length + 4 * k ≤ buf.length) : parseUdp buf = .ok d := by
  have hlong : 19 < buf.length := by omega
  have hudpLen := hudp.length
  have hseven : 7 < udp.length := by omega
  have hpayload : udp.sub 8 (8 + d.payload.length) = d.payload := by
    rw [← hudpLen, Bytes.sub_length, hudp.payload]
  have htotal : (u16be buf[2] buf[3]).toNat = 28 + d.payload.length + 4 * k := by
    rw [hheader.totalLen hlong, UInt16.toNat_ofNat_of_lt' (Nat.lt_succ_of_le h)]
  have hlenWord : (u16be udp[4] udp[5]).toNat = 8 + d.payload.length := by
    rw [hudp.udpLen hseven, UInt16.toNat_ofNat_of_lt' (show 8 + d.payload.length < 2 ^ 16 by omega)]
  obtain ⟨hversion, hwords⟩ := version_words k hk
  have hip : ipv4HeaderLen = 20 := rfl
  have hhdr : udpHeaderLen = 8 := rfl
  unfold parseUdp
  simp (disch := omega) only [Bytes.index_ok, Checked.ok_bind]
  rw [Checked.rejectIf_not_bind (by omega), hheader.version hlong,
    Checked.rejectIf_not_bind (not_not_intro hversion), hwords, Checked.rejectIf_not_bind (by omega),
    hheader.protocol hlong, Checked.rejectIf_not_bind (by decide), hheader.flags hlong,
    hheader.offset hlong, Checked.rejectIf_not_bind (by decide), htotal,
    Checked.rejectIf_not_bind (by omega), Bytes.slice_ok (by omega) (by omega), Checked.ok_bind,
    hslice, Checked.rejectIf_not_bind (by omega)]
  simp (disch := omega) only [Bytes.index_ok, Checked.ok_bind]
  rw [hlenWord, Checked.rejectIf_not_bind (by omega), Bytes.slice_ok (by omega) (by omega),
    Checked.ok_bind, hhdr, hpayload, hudp.srcPort hseven, hudp.dstPort hseven, hheader.srcIp hlong,
    hheader.dstIp hlong]
  rfl

/-- A packet is read back, whatever its checksums, its options and the bytes behind it. -/
theorem parseUdp_options (d : UdpDatagram) (ipId ipSum udpSum : UInt16) (options pad : Bytes) {k : Nat}
    (hk : k ≤ 10) (hopts : options.length = 4 * k) (h : 28 + d.payload.length + 4 * k ≤ 65535) :
    parseUdp (headerOfWords (5 + k) d ipId (28 + d.payload.length + 4 * k) ipSum ++ options ++
      udpSegment d (8 + d.payload.length) udpSum ++ pad) = .ok d := by
  have hheader := isHeader_append (5 + k) d ipId (28 + d.payload.length + 4 * k) ipSum
    (options ++ (udpSegment d (8 + d.payload.length) udpSum ++ pad))
  rw [← List.append_assoc, ← List.append_assoc] at hheader
  apply parseUdp_eq hk hheader (isSegment_udpSegment d udpSum) ?_ h ?_
  · have hend : 20 + 4 * k + (8 + d.payload.length) = 28 + d.payload.length + 4 * k := by omega
    rw [← hend]
    have hsub := Bytes.sub_middle (headerOfWords (5 + k) d ipId
      (20 + 4 * k + (8 + d.payload.length)) ipSum ++ options) (udpSegment d (8 + d.payload.length) udpSum) pad
    rw [List.length_append, length_headerOfWords, hopts, length_udpSegment] at hsub
    exact hsub
  · simp only [List.length_append, length_headerOfWords, hopts, length_udpSegment]
    omega

theorem parseUdp_packet (d : UdpDatagram) (ipId ipSum udpSum : UInt16) (pad : Bytes)
    (h : d.payload.length ≤ 65507) :
    parseUdp (ipHeader d ipId (28 + d.payload.length) ipSum ++
      udpSegment d (8 + d.payload.length) udpSum ++ pad) = .ok d := by
  have hread := parseUdp_options d ipId ipSum udpSum [] pad (Nat.zero_le 10) rfl (by omega)
  rw [List.append_nil] at hread
  exact hread

end Ipv4

end Muta.Netstack
