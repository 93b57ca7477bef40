import Muta.Netstack.Checksum

/-!
# Packets a receiver can trust

A word chosen as the checksum of the rest makes the whole string sum to all ones. Both
checksums of a built packet are of this kind, so a receiver that adds up the header, or
the pseudo-header and the segment, finds them right; and `parseUdp` gives the datagram
back, also behind options and in front of padding.
-/

namespace Muta.Netstack.Ipv4

open OnesComplement
set_option autoImplicit false

variable {ε : Type}

/-- The receiver's test: the end-around sum of the words is all ones. -/
def Verifies (bytes : Bytes) : Prop := OnesComplement.sum (2 ^ 16) (wordsOf bytes) = 0xFFFF

def receivedPseudo (p : Bytes) : Bytes := p.sub 12 20 ++ [0] ++ p.sub 9 10 ++ p.sub 24 26

/-- Insert options behind the fixed header and count them in both lengths. -/
def insertOptions (p options : Bytes) : Bytes :=
  [UInt8.ofNat (0x40 + (5 + options.length / 4))] ++ p.sub 1 2 ++
    u16beBytes (UInt16.ofNat (p.length + options.length)) ++ p.sub 4 20 ++ options ++ p.drop 20

theorem verifies_iff (bytes : Bytes) :
    Verifies bytes ↔ plainSum bytes ≠ 0 ∧ plainSum bytes % 65535 = 0 := by
  rw [Verifies, sum_eq_residue (by decide) (fun w => mem_wordsOf_lt), sum_wordsOf, residue]
  split
  · omega
  · omega

theorem word_le_plainSum {x : Bytes} (h : x.length % 2 = 0) (a b : UInt8) (y : Bytes) :
    (u16be a b).toNat ≤ plainSum (x ++ a :: b :: y) := by
  rw [plainSum_append_even h, plainSum_cons_cons]
  omega

theorem plainSum_fill {x : Bytes} (h : x.length % 2 = 0) (sum : UInt16) (y : Bytes) :
    plainSum (x ++ u16beBytes sum ++ y) = plainSum (x ++ u16beBytes 0 ++ y) + sum.toNat := by
  have hword : ∀ v : UInt16, plainSum (u16beBytes v ++ y) = v.toNat + plainSum y := by
    intro v
    have hcons := plainSum_cons_cons (UInt8.ofNat (v.toNat / 2 ^ 8)) (UInt8.ofNat v.toNat) y
    rw [u16be_bytes] at hcons
    exact hcons
  have hzero : (0 : UInt16).toNat = 0 := rfl
  rw [List.append_assoc, List.append_assoc, plainSum_append_even h, plainSum_append_even h, hword,
    hword, hzero]
  omega

theorem toNat_rfc1071 (bytes : Bytes) :
    (rfc1071 bytes).toNat = 65535 - residue (2 ^ 16) (plainSum bytes) := by
  have hlt := residue_lt (b := 2 ^ 16) (by decide) (plainSum bytes)
  rw [rfc1071_eq, UInt16.toNat_not, UInt16.toNat_ofNat_of_lt' hlt]
  rfl

theorem verifies_fill {x y : Bytes} (h : x.length % 2 = 0)
    (hne : plainSum (x ++ u16beBytes 0 ++ y) ≠ 0) :
    Verifies (x ++ u16beBytes (rfc1071 (x ++ u16beBytes 0 ++ y)) ++ y) := by
  have hres := residue_modEq (2 ^ 16) (plainSum (x ++ u16beBytes 0 ++ y))
  have hlt := residue_lt (b := 2 ^ 16) (by decide) (plainSum (x ++ u16beBytes 0 ++ y))
  rw [verifies_iff, plainSum_fill h, toNat_rfc1071]
  generalize plainSum (x ++ u16beBytes 0 ++ y) = s at *
  simp only [Nat.ModEq] at hres
  omega

theorem verifies_ones {x y : Bytes} (h : x.length % 2 = 0)
    (hz : rfc1071 (x ++ u16beBytes 0 ++ y) = 0) : Verifies (x ++ u16beBytes 0xFFFF ++ y) := by
  have hres := residue_modEq (2 ^ 16) (plainSum (x ++ u16beBytes 0 ++ y))
  have hlt := residue_lt (b := 2 ^ 16) (by decide) (plainSum (x ++ u16beBytes 0 ++ y))
  have hnat := toNat_rfc1071 (x ++ u16beBytes 0 ++ y)
  have hones : (0xFFFF : UInt16).toNat = 65535 := rfl
  have hzero : (0 : UInt16).toNat = 0 := rfl
  rw [hz, hzero] at hnat
  rw [verifies_iff, plainSum_fill h, hones]
  generalize plainSum (x ++ u16beBytes 0 ++ y) = s at *
  simp only [Nat.ModEq] at hres
  omega

section Packet

variable (d : UdpDatagram) (ipId : UInt16)

def headerFront (totalLen : Nat) : Bytes :=
  [0x45, 0] ++ u16beBytes (UInt16.ofNat totalLen) ++ u16beBytes ipId ++ u16beBytes 0 ++ [64, protoUdp]

theorem ipHeader_eq (totalLen : Nat) (sum : UInt16) :
    ipHeader d ipId totalLen sum =
      headerFront ipId totalLen ++ u16beBytes sum ++ (d.srcIp.octets ++ d.dstIp.octets) := by
  simp [ipHeader, headerFront]

theorem checksum_ipHeader (totalLen : Nat) :
    (checksum [ipHeader d ipId totalLen 0] : Checked ε _) =
      .ok (rfc1071 (ipHeader d ipId totalLen 0)) := by
  have h := @checksum_nonempty ε [ipHeader d ipId totalLen 0] (by simp [ipHeader]) (by simp)
  rw [List.flatten_singleton] at h
  exact h

theorem ipHeader_verifies (totalLen : Nat) :
    Verifies (ipHeader d ipId totalLen (rfc1071 (ipHeader d ipId totalLen 0))) := by
  have hne : plainSum (ipHeader d ipId totalLen 0) ≠ 0 := by
    have hle : (u16be 0x45 0).toNat ≤ plainSum (ipHeader d ipId totalLen 0) :=
      word_le_plainSum (x := []) rfl 0x45 0 _
    exact Nat.ne_of_gt (Nat.lt_of_lt_of_le (by decide) hle)
  have hfront : (headerFront ipId totalLen).length % 2 = 0 := by simp [headerFront]
  rw [ipHeader_eq] at hne
  have h := verifies_fill hfront hne
  rw [← ipHeader_eq, ← ipHeader_eq] at h
  exact h

def segmentFront (udpLen : Nat) : Bytes :=
  pseudoHeader d udpLen ++ u16beBytes d.srcPort ++ u16beBytes d.dstPort ++
    u16beBytes (UInt16.ofNat udpLen)

theorem segment_eq (udpLen : Nat) (sum : UInt16) :
    pseudoHeader d udpLen ++ udpSegment d udpLen sum =
      segmentFront d udpLen ++ u16beBytes sum ++ d.payload := by
  simp [udpSegment, segmentFront]

def udpSum (udpLen : Nat) : UInt16 :=
  let sum := rfc1071 (pseudoHeader d udpLen ++ udpSegment d udpLen 0)
  if sum = 0 then 0xFFFF else sum

theorem udpSum_ne_zero (udpLen : Nat) : udpSum d udpLen ≠ 0 := by
  unfold udpSum
  dsimp only
  split
  · decide
  · assumption

theorem segment_verifies (udpLen : Nat) :
    Verifies (pseudoHeader d udpLen ++ udpSegment d udpLen (udpSum d udpLen)) := by
  have hfront : (segmentFront d udpLen).length % 2 = 0 := by simp [segmentFront]
  by_cases hz : rfc1071 (pseudoHeader d udpLen ++ udpSegment d udpLen 0) = 0
  · have hsum : udpSum d udpLen = 0xFFFF := if_pos hz
    rw [segment_eq] at hz
    rw [hsum, segment_eq]
    exact verifies_ones hfront hz
  · have hsum : udpSum d udpLen = rfc1071 (pseudoHeader d udpLen ++ udpSegment d udpLen 0) :=
      if_neg hz
    rw [hsum, segment_eq, segment_eq]
    apply verifies_fill hfront
    have hle : (u16be 0 protoUdp).toNat ≤
        plainSum (segmentFront d udpLen ++ u16beBytes 0 ++ d.payload) :=
      word_le_plainSum (x := d.srcIp.octets ++ d.dstIp.octets) (by simp) 0 protoUdp _
    exact Nat.ne_of_gt (Nat.lt_of_lt_of_le (by decide) hle)

theorem checksum_segment {udpLen : Nat} (h : d.payload.length ≤ 65507) :
    (checksum [pseudoHeader d udpLen, udpSegment d udpLen 0] : Checked ε _) =
      .ok (rfc1071 (pseudoHeader d udpLen ++ udpSegment d udpLen 0)) := by
  have hlen : [pseudoHeader d udpLen, udpSegment d udpLen 0].flatten.length ≤ 131072 := by
    simp only [List.flatten_cons, List.flatten_nil, List.append_nil, List.length_append,
      length_pseudoHeader, length_udpSegment]
    omega
  have hne : ∀ part ∈ [pseudoHeader d udpLen, udpSegment d udpLen 0], part ≠ [] := by
    intro part hpart
    apply List.ne_nil_of_length_pos
    rcases List.mem_cons.mp hpart with rfl | hpart
    · rw [length_pseudoHeader]
      decide
    · rw [List.mem_singleton.mp hpart, length_udpSegment]
      omega
  have hsum := checksum_nonempty (ε := ε) hne hlen
  rw [List.flatten_cons, List.flatten_singleton] at hsum
  exact hsum

def packet : Bytes :=
  ipHeader d ipId (28 + d.payload.length)
      (rfc1071 (ipHeader d ipId (28 + d.payload.length) 0)) ++
    udpSegment d (8 + d.payload.length) (udpSum d (8 + d.payload.length))

theorem buildUdp_eq (h : d.payload.length ≤ 65507) :
    (buildUdp d ipId : Checked ε _) = .ok (packet d ipId) := by
  have hip : ipv4HeaderLen = 20 := rfl
  have hudp : udpHeaderLen = 8 := rfl
  have htotal : 20 + (8 + d.payload.length) = 28 + d.payload.length := by omega
  rw [buildUdp, hip, hudp, inWord_ok (by omega), Checked.ok_bind, inWord_ok (by omega),
    Checked.ok_bind, htotal, checksum_ipHeader, Checked.ok_bind, checksum_segment d h,
    Checked.ok_bind]
  rfl

theorem take_packet : (packet d ipId).take 20 =
    ipHeader d ipId (28 + d.payload.length) (rfc1071 (ipHeader d ipId (28 + d.payload.length) 0)) :=
  List.take_left' rfl

theorem drop_packet : (packet d ipId).drop 20 =
    udpSegment d (8 + d.payload.length) (udpSum d (8 + d.payload.length)) :=
  List.drop_left' rfl

theorem length_packet : (packet d ipId).length = 28 + d.payload.length := by
  rw [packet, List.length_append, length_ipHeader, length_udpSegment]
  omega

theorem receivedPseudo_packet (h : d.payload.length ≤ 65507) :
    receivedPseudo (packet d ipId) = pseudoHeader d (8 + d.payload.length) := by
  have hlen : u16beBytes (UInt16.ofNat (8 + d.payload.length)) =
      [UInt8.ofNat ((8 + d.payload.length) / 2 ^ 8), UInt8.ofNat (8 + d.payload.length)] := by
    rw [u16beBytes, UInt16.toNat_ofNat_of_lt' (show 8 + d.payload.length < 2 ^ 16 by omega)]
  have hshape : receivedPseudo (packet d ipId) = d.srcIp.octets ++ d.dstIp.octets ++ [0] ++
      [protoUdp] ++ u16beBytes (UInt16.ofNat (8 + d.payload.length)) := rfl
  rw [hshape, hlen, pseudoHeader]
  simp

theorem sum_packet : (packet d ipId).sub 26 28 = u16beBytes (udpSum d (8 + d.payload.length)) := rfl

theorem insertOptions_packet {k : Nat} {options : Bytes} (hopts : options.length = 4 * k) :
    insertOptions (packet d ipId) options =
      headerOfWords (5 + k) d ipId (28 + d.payload.length + 4 * k)
          (rfc1071 (ipHeader d ipId (28 + d.payload.length) 0)) ++ options ++
        udpSegment d (8 + d.payload.length) (udpSum d (8 + d.payload.length)) := by
  rw [insertOptions, drop_packet, length_packet, hopts, Nat.mul_div_cancel_left k (by decide)]
  rfl

end Packet

/-- A built packet verifies and is read back, with options and padding or without. -/
theorem buildUdp_valid (d : UdpDatagram) (ipId : UInt16) (h : d.payload.length ≤ 65507) :
    ∃ p, (∀ {ε : Type}, (buildUdp d ipId : Checked ε _) = .ok p) ∧
      Verifies (p.take 20) ∧
      p.sub 26 28 ≠ [0, 0] ∧
      Verifies (receivedPseudo p ++ p.drop 20) ∧
      parseUdp p = .ok d ∧
      (∀ trailing, parseUdp (p ++ trailing) = .ok d) ∧
      (∀ (k : Nat) (options trailing : Bytes), k ≤ 10 → options.length = 4 * k →
        p.length + 4 * k ≤ 65535 →
        parseUdp (insertOptions p options ++ trailing) = .ok d) := by
  have hread : ∀ trailing, parseUdp (packet d ipId ++ trailing) = .ok d :=
    fun trailing => parseUdp_packet d ipId _ _ trailing h
  refine ⟨packet d ipId, fun {_} => buildUdp_eq d ipId h, ?_, ?_, ?_, ?_, hread, ?_⟩
  · rw [take_packet]
    exact ipHeader_verifies d ipId _
  · rw [sum_packet]
    intro hz
    exact udpSum_ne_zero d _ (u16beBytes_inj.mp hz)
  · rw [receivedPseudo_packet d ipId h, drop_packet]
    exact segment_verifies d _
  · have hnil := hread []
    rwa [List.append_nil] at hnil
  · intro k options trailing hk hopts htotal
    rw [length_packet] at htotal
    rw [insertOptions_packet d ipId hopts]
    exact parseUdp_options d ipId _ _ options trailing hk hopts htotal

theorem buildUdp_valid_odd :
    ∃ p, (∀ {ε : Type},
        (buildUdp ⟨.unspecified, .broadcast, 68, 67, [1, 2, 3, 4, 5]⟩ 1 : Checked ε _) = .ok p) ∧
      Verifies (p.take 20) ∧ Verifies (receivedPseudo p ++ p.drop 20) := by
  obtain ⟨p, hp, hheader, _, hsegment, _⟩ :=
    buildUdp_valid ⟨.unspecified, .broadcast, 68, 67, [1, 2, 3, 4, 5]⟩ 1 (by decide)
  exact ⟨p, hp, hheader, hsegment⟩

end Muta.Netstack.Ipv4
