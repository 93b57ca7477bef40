import Muta.Base.Bytes
import Muta.Base.Text

/-!
# Ethernet frames

Addresses, and the fourteen-byte header in front of every payload. A frame is built
by writing its fields one behind the other, and a buffer of at least fourteen bytes
is always of that form, so `parse` is described by what it does to written fields.
-/

namespace Muta.Netstack

set_option autoImplicit false

inductive Error where
  | truncated
  | malformed (what : String)
deriving DecidableEq, Repr

structure Ipv4Addr where
  a : UInt8
  b : UInt8
  c : UInt8
  d : UInt8
deriving DecidableEq, Repr

namespace Ipv4Addr

def unspecified : Ipv4Addr := ⟨0, 0, 0, 0⟩
def broadcast : Ipv4Addr := ⟨255, 255, 255, 255⟩

def octets (i : Ipv4Addr) : Bytes := [i.a, i.b, i.c, i.d]

def isUnspecified (i : Ipv4Addr) : Bool := i = unspecified

/-- `u32::from`. -/
def bits (i : Ipv4Addr) : BitVec 32 := i.a.toBitVec ++ i.b.toBitVec ++ i.c.toBitVec ++ i.d.toBitVec

/-- `Ipv4Addr::from` of a `u32`. -/
def ofBits (v : BitVec 32) : Ipv4Addr :=
  ⟨⟨v.extractLsb' 24 8⟩, ⟨v.extractLsb' 16 8⟩, ⟨v.extractLsb' 8 8⟩, ⟨v.extractLsb' 0 8⟩⟩

def text (ip : Ipv4Addr) : Text :=
  Text.decimal ip.a.toNat ++ ['.'] ++ Text.decimal ip.b.toNat ++ ['.'] ++
    Text.decimal ip.c.toNat ++ ['.'] ++ Text.decimal ip.d.toNat

@[simp] theorem length_octets (i : Ipv4Addr) : i.octets.length = 4 := rfl

theorem getLsbD_bits (i : Ipv4Addr) (k : Nat) :
    i.bits.getLsbD k =
      if k < 8 then i.d.toBitVec.getLsbD k
      else if k - 8 < 8 then i.c.toBitVec.getLsbD (k - 8)
      else if k - 8 - 8 < 8 then i.b.toBitVec.getLsbD (k - 8 - 8)
      else i.a.toBitVec.getLsbD (k - 8 - 8 - 8) := by
  simp only [bits, BitVec.getLsbD_append]

theorem bits_ofBits (v : BitVec 32) : (ofBits v).bits = v := by
  apply BitVec.eq_of_getLsbD_eq
  intro i hi
  simp only [getLsbD_bits, ofBits, BitVec.getLsbD_extractLsb']
  by_cases hd : i < 8
  · simp [hd]
  · by_cases hc : i - 8 < 8
    · simp [hd, hc, show 8 + (i - 8) = i by omega]
    · by_cases hb : i - 8 - 8 < 8
      · simp [hd, hc, hb, show 16 + (i - 8 - 8) = i by omega]
      · simp [hd, hc, hb, show 24 + (i - 8 - 8 - 8) = i by omega, show i - 8 - 8 - 8 < 8 by omega]

theorem bits_inj {i j : Ipv4Addr} : i.bits = j.bits ↔ i = j := by
  constructor
  · intro h
    have hbyte : ∀ {u v : UInt8}, (∀ k < 8, u.toBitVec.getLsbD k = v.toBitVec.getLsbD k) → u = v := by
      intro u v huv
      apply UInt8.toBitVec_inj.mp
      exact BitVec.eq_of_getLsbD_eq huv
    have hbit : ∀ k, i.bits.getLsbD k = j.bits.getLsbD k := fun k => by rw [h]
    simp only [getLsbD_bits] at hbit
    obtain ⟨a, b, c, d⟩ := i
    obtain ⟨a', b', c', d'⟩ := j
    simp only [mk.injEq]
    refine ⟨hbyte ?_, hbyte ?_, hbyte ?_, hbyte ?_⟩
    · intro k hk
      have h := hbit (k + 24)
      simp only [show ¬ k + 24 < 8 by omega, show ¬ k + 24 - 8 < 8 by omega,
        show ¬ k + 24 - 8 - 8 < 8 by omega, show k + 24 - 8 - 8 - 8 = k by omega, if_false] at h
      exact h
    · intro k hk
      have h := hbit (k + 16)
      simp only [show ¬ k + 16 < 8 by omega, show ¬ k + 16 - 8 < 8 by omega,
        show k + 16 - 8 - 8 = k by omega, hk, if_false, if_true] at h
      exact h
    · intro k hk
      have h := hbit (k + 8)
      simp only [show ¬ k + 8 < 8 by omega, show k + 8 - 8 = k by omega, hk, if_false, if_true] at h
      exact h
    · intro k hk
      have h := hbit k
      simp only [hk, if_true] at h
      exact h
  · intro h
    rw [h]

end Ipv4Addr

/-- `Ipv4Addr::new(b[0], b[1], b[2], b[3])`, as both parsers read an address. -/
def ipv4 {ε : Type} (b : Bytes) : Checked ε Ipv4Addr := do
  return ⟨← b.index 0, ← b.index 1, ← b.index 2, ← b.index 3⟩

theorem ipv4_safe {ε : Type} {b : Bytes} (h : 4 ≤ b.length) : (ipv4 b : Checked ε _).Safe := by
  unfold ipv4
  simp (disch := omega) only [Bytes.index_ok, Checked.ok_bind]
  exact Checked.safe_ok _

structure MacAddr where
  m0 : UInt8
  m1 : UInt8
  m2 : UInt8
  m3 : UInt8
  m4 : UInt8
  m5 : UInt8
deriving DecidableEq, Repr

namespace MacAddr

def broadcast : MacAddr := ⟨255, 255, 255, 255, 255, 255⟩
def zero : MacAddr := ⟨0, 0, 0, 0, 0, 0⟩

def fromSlice : Bytes → Checked Error MacAddr
  | m0 :: m1 :: m2 :: m3 :: m4 :: m5 :: _ => .ok ⟨m0, m1, m2, m3, m4, m5⟩
  | _ => .err .truncated

def isMulticast (m : MacAddr) : Bool := m.m0 &&& 1 ≠ 0

def octets (m : MacAddr) : Bytes := [m.m0, m.m1, m.m2, m.m3, m.m4, m.m5]

@[simp] theorem length_octets (m : MacAddr) : m.octets.length = 6 := rfl

theorem octets_inj {m n : MacAddr} : m.octets = n.octets ↔ m = n := by
  constructor
  · intro h
    obtain ⟨m0, m1, m2, m3, m4, m5⟩ := m
    obtain ⟨n0, n1, n2, n3, n4, n5⟩ := n
    simpa [octets] using h
  · intro h
    rw [h]

theorem fromSlice_safe (b : Bytes) : (fromSlice b).Safe := by
  unfold fromSlice
  split
  · exact Checked.safe_ok _
  · exact Checked.safe_err _

theorem exists_octets {b : Bytes} (h : 6 ≤ b.length) : ∃ m rest, b = octets m ++ rest := by
  rcases b with _ | ⟨m0, _ | ⟨m1, _ | ⟨m2, _ | ⟨m3, _ | ⟨m4, _ | ⟨m5, rest⟩⟩⟩⟩⟩⟩
  case cons.cons.cons.cons.cons.cons => exact ⟨⟨m0, m1, m2, m3, m4, m5⟩, rest, rfl⟩
  all_goals simp at h

end MacAddr

namespace Ethernet

def headerLen : Nat := 14
def minFrameLen : Nat := 60
def ethertypeIpv4 : UInt16 := 0x0800
def ethertypeArp : UInt16 := 0x0806

structure Frame where
  dst : MacAddr
  src : MacAddr
  ethertype : UInt16
  payload : Bytes
deriving DecidableEq, Repr

def parse (buf : Bytes) : Checked Error Frame := do
  Checked.rejectIf (buf.length < headerLen) .truncated
  let dst ← MacAddr.fromSlice (← buf.slice 0 6)
  let src ← MacAddr.fromSlice (← buf.slice 6 12)
  let ethertype := u16be (← buf.index 12) (← buf.index 13)
  let payload ← buf.slice headerLen buf.length
  return { dst, src, ethertype, payload }

def fields (dst src : MacAddr) (ethertype : UInt16) (payload : Bytes) : Bytes :=
  dst.octets ++ src.octets ++ u16beBytes ethertype ++ payload

def build {ε : Type} (dst src : MacAddr) (ethertype : UInt16) (payload : Bytes) :
    Checked ε Bytes := do
  let _ ← inWord 64 (headerLen + payload.length)
  let f := fields dst src ethertype payload
  return f.resize (max f.length minFrameLen)

theorem parse_short {buf : Bytes} (h : buf.length < headerLen) : parse buf = .err .truncated :=
  Checked.rejectIf_bind h _ _

theorem length_fields (dst src : MacAddr) (ethertype : UInt16) (payload : Bytes) :
    (fields dst src ethertype payload).length = headerLen + payload.length := by
  simp only [fields, List.length_append, MacAddr.length_octets, length_u16beBytes]
  rfl

theorem parse_fields (dst src : MacAddr) (ethertype : UInt16) (payload : Bytes) :
    parse (fields dst src ethertype payload) = .ok ⟨dst, src, ethertype, payload⟩ := by
  have hlen := length_fields dst src ethertype payload
  have hhdr : headerLen = 14 := rfl
  unfold parse
  rw [Checked.rejectIf_not_bind (by omega), Bytes.slice_ok (by omega) (by omega),
    Bytes.slice_ok (by omega) (by omega), Bytes.slice_ok (by omega) (Nat.le_refl _),
    Bytes.index_ok (by omega), Bytes.index_ok (by omega), Bytes.sub_length]
  have hdst : MacAddr.fromSlice ((fields dst src ethertype payload).sub 0 6) = .ok dst := rfl
  have hsrc : MacAddr.fromSlice ((fields dst src ethertype payload).sub 6 12) = .ok src := rfl
  simp only [hdst, hsrc, Checked.pure_eq, Checked.ok_bind]
  have htype : u16be (fields dst src ethertype payload)[12] (fields dst src ethertype payload)[13] =
      ethertype := u16be_bytes ethertype
  rw [htype]
  rfl

theorem exists_fields {buf : Bytes} (h : headerLen ≤ buf.length) :
    ∃ dst src ethertype payload, buf = fields dst src ethertype payload := by
  have hhdr : headerLen = 14 := rfl
  obtain ⟨dst, rest, rfl⟩ := MacAddr.exists_octets (show 6 ≤ buf.length by omega)
  rw [List.length_append, MacAddr.length_octets] at h
  obtain ⟨src, rest, rfl⟩ := MacAddr.exists_octets (show 6 ≤ rest.length by omega)
  rw [List.length_append, MacAddr.length_octets] at h
  obtain ⟨ethertype, payload, rfl⟩ := exists_u16be (show 2 ≤ rest.length by omega)
  exact ⟨dst, src, ethertype, payload, by simp [fields]⟩

theorem parse_safe (buf : Bytes) : (parse buf).Safe := by
  by_cases h : buf.length < headerLen
  · rw [parse_short h]
    exact Checked.safe_err _
  · obtain ⟨dst, src, ethertype, payload, rfl⟩ := exists_fields (Nat.le_of_not_lt h)
    rw [parse_fields]
    exact Checked.safe_ok _

theorem build_ok {ε : Type} (dst src : MacAddr) (ethertype : UInt16) (payload : Bytes)
    (h : headerLen + payload.length < 2 ^ 64) :
    ∃ pad ≤ minFrameLen, (build dst src ethertype payload : Checked ε _) =
      .ok (fields dst src ethertype (payload ++ List.replicate pad 0)) := by
  refine ⟨max (fields dst src ethertype payload).length minFrameLen -
    (fields dst src ethertype payload).length, by omega, ?_⟩
  simp only [build, inWord_ok h, Checked.ok_bind, Checked.pure_eq, Bytes.resize]
  rw [List.take_of_length_le (Nat.le_max_left _ _)]
  simp [fields]

theorem length_build {ε : Type} {dst src : MacAddr} {ethertype : UInt16} {payload frame : Bytes}
    (h : (build dst src ethertype payload : Checked ε _) = .ok frame) :
    frame.length = max (headerLen + payload.length) minFrameLen := by
  unfold build inWord at h
  split at h
  · cases h
    rw [Bytes.length_resize, length_fields]
  · cases h

end Ethernet

end Muta.Netstack
