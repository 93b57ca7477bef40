import Mathlib.Algebra.Group.Nat.Defs
import Muta.Base.Checked

/-!
# Byte strings with checked access

Byte strings are lists. Reading outside one is a `Fault`, as is arithmetic that
leaves the machine's range; an operation that cannot go wrong is a plain function.
Words are laid out by dividing by powers of 256, which keeps every law about them
within linear arithmetic.
-/

set_option autoImplicit false

abbrev Bytes := List UInt8

namespace Bytes

def sub (b : Bytes) (i j : Nat) : Bytes := (b.drop i).take (j - i)

def range? (b : Bytes) (i j : Nat) : Option Bytes :=
  if i ≤ j ∧ j ≤ b.length then some (b.sub i j) else none

def slice {ε : Type} (b : Bytes) (i j : Nat) : Checked ε Bytes :=
  match b.range? i j with
  | some r => .ok r
  | none => .fault .bounds

def index {ε : Type} (b : Bytes) (i : Nat) : Checked ε UInt8 :=
  match b[i]? with
  | some v => .ok v
  | none => .fault .bounds

def resize (b : Bytes) (n : Nat) : Bytes := b.take n ++ List.replicate (n - b.length) 0

theorem length_sub {b : Bytes} (i : Nat) {j : Nat} (hj : j ≤ b.length) : (b.sub i j).length = j - i := by
  simp only [sub, List.length_take, List.length_drop]
  omega

theorem sub_length (b : Bytes) (i : Nat) : b.sub i b.length = b.drop i := by
  rw [sub, ← List.length_drop, List.take_length]

theorem sub_append_left {a b : Bytes} {i j : Nat} (hj : j ≤ a.length) :
    Bytes.sub (a ++ b) i j = a.sub i j := by
  unfold sub
  by_cases hij : i ≤ j
  · rw [List.drop_append_of_le_length (by omega), List.take_append_of_le_length]
    rw [List.length_drop]
    omega
  · rw [show j - i = 0 by omega]
    simp

theorem sub_middle (a b c : Bytes) : Bytes.sub (a ++ b ++ c) a.length (a.length + b.length) = b := by
  simp [sub]

theorem range?_eq {b : Bytes} {i j : Nat} (hi : i ≤ j) (hj : j ≤ b.length) :
    b.range? i j = some (b.sub i j) := if_pos ⟨hi, hj⟩

theorem range?_eq_some {b r : Bytes} {i j : Nat} :
    b.range? i j = some r ↔ (i ≤ j ∧ j ≤ b.length) ∧ b.sub i j = r := by
  simp [range?]

theorem slice_ok {ε : Type} {b : Bytes} {i j : Nat} (hi : i ≤ j) (hj : j ≤ b.length) :
    (b.slice i j : Checked ε Bytes) = .ok (b.sub i j) := by
  rw [slice, range?_eq hi hj]

theorem index_ok {ε : Type} {b : Bytes} {i : Nat} (hi : i < b.length) :
    (b.index i : Checked ε UInt8) = .ok b[i] := by
  rw [index, List.getElem?_eq_getElem hi]

theorem slice_safe {ε : Type} {b : Bytes} {i j : Nat} (hi : i ≤ j) (hj : j ≤ b.length) :
    (b.slice i j : Checked ε Bytes).Safe := by
  rw [slice_ok hi hj]
  exact Checked.safe_ok _

theorem index_safe {ε : Type} {b : Bytes} {i : Nat} (hi : i < b.length) :
    (b.index i : Checked ε UInt8).Safe := by
  rw [index_ok hi]
  exact Checked.safe_ok _

theorem length_resize (b : Bytes) (n : Nat) : (b.resize n).length = n := by
  simp only [resize, List.length_append, List.length_take, List.length_replicate]
  omega

end Bytes

/-- A span of time, and a point on the monotone clock, in nanoseconds. -/
abbrev Duration := Nat

abbrev Instant := Nat

def ofMillis (n : Nat) : Duration := n * 1000000

def ofSecs (n : Nat) : Duration := n * 1000000000

/-- A natural number kept in a machine word of `w` bits. -/
def inWord {ε : Type} (w n : Nat) : Checked ε Nat := if n < 2 ^ w then .ok n else .fault .overflow

theorem inWord_ok {ε : Type} {w n : Nat} (h : n < 2 ^ w) : (inWord w n : Checked ε Nat) = .ok n :=
  if_pos h

/-- The least multiple of `k` that is not below `n`, for a positive `k`. -/
def nextMultipleOf (n k : Nat) : Nat := if n % k = 0 then n else n + (k - n % k)

theorem le_nextMultipleOf (n k : Nat) : n ≤ nextMultipleOf n k := by
  unfold nextMultipleOf
  split <;> omega

theorem nextMultipleOf_le_add (n k : Nat) : nextMultipleOf n k ≤ n + k := by
  unfold nextMultipleOf
  split <;> omega

theorem dvd_nextMultipleOf {k : Nat} (hk : 0 < k) (n : Nat) : k ∣ nextMultipleOf n k := by
  unfold nextMultipleOf
  split
  · exact Nat.dvd_of_mod_eq_zero ‹_›
  · have hlt := Nat.mod_lt n hk
    refine ⟨n / k + 1, ?_⟩
    rw [Nat.mul_add, Nat.mul_one]
    have hdiv := Nat.div_add_mod n k
    omega

theorem nextMultipleOf_le {n k m : Nat} (hm : k ∣ m) (h : n ≤ m) : nextMultipleOf n k ≤ m := by
  unfold nextMultipleOf
  split
  · exact h
  · rename_i hne
    obtain ⟨c, rfl⟩ := hm
    rcases Nat.eq_zero_or_pos k with rfl | hk
    · omega
    have hdiv := Nat.div_add_mod n k
    have hlt : n / k < c := by
      rw [Nat.div_lt_iff_lt_mul hk, Nat.mul_comm]
      refine Nat.lt_of_le_of_ne h fun he => hne ?_
      rw [he, Nat.mul_mod_right]
    have hmul : k * (n / k + 1) ≤ k * c := Nat.mul_le_mul_left k hlt
    rw [Nat.mul_add, Nat.mul_one] at hmul
    have hmod := Nat.mod_lt n hk
    omega

def u32le (a b c d : UInt8) : UInt32 :=
  UInt32.ofNat (a.toNat + 2 ^ 8 * b.toNat + 2 ^ 16 * c.toNat + 2 ^ 24 * d.toNat)

def u32leBytes (v : UInt32) : Bytes :=
  [UInt8.ofNat v.toNat, UInt8.ofNat (v.toNat / 2 ^ 8), UInt8.ofNat (v.toNat / 2 ^ 16),
    UInt8.ofNat (v.toNat / 2 ^ 24)]

def u16be (a b : UInt8) : UInt16 := UInt16.ofNat (2 ^ 8 * a.toNat + b.toNat)

def u16beBytes (v : UInt16) : Bytes := [UInt8.ofNat (v.toNat / 2 ^ 8), UInt8.ofNat v.toNat]

def u32be (a b c d : UInt8) : UInt32 := u32le d c b a

def u32beBytes (v : UInt32) : Bytes := (u32leBytes v).reverse

@[simp] theorem length_u32leBytes (v : UInt32) : (u32leBytes v).length = 4 := rfl

@[simp] theorem length_u16beBytes (v : UInt16) : (u16beBytes v).length = 2 := rfl

theorem u16be_bytes (v : UInt16) :
    u16be (UInt8.ofNat (v.toNat / 2 ^ 8)) (UInt8.ofNat v.toNat) = v := by
  apply UInt16.toNat_inj.mp
  have hv := v.toNat_lt
  simp only [u16be, UInt16.toNat_ofNat', UInt8.toNat_ofNat']
  omega

theorem u16beBytes_inj {v w : UInt16} : u16beBytes v = u16beBytes w ↔ v = w := by
  constructor
  · intro h
    obtain ⟨hhigh, hlow⟩ : UInt8.ofNat (v.toNat / 2 ^ 8) = UInt8.ofNat (w.toNat / 2 ^ 8) ∧
        UInt8.ofNat v.toNat = UInt8.ofNat w.toNat := by simpa [u16beBytes] using h
    rw [← u16be_bytes v, hhigh, hlow, u16be_bytes w]
  · intro h
    rw [h]

theorem u16beBytes_u16be (a b : UInt8) : u16beBytes (u16be a b) = [a, b] := by
  have ha := a.toNat_lt
  have hb := b.toNat_lt
  have hmod : (2 ^ 8 * a.toNat + b.toNat) % 2 ^ 16 = 2 ^ 8 * a.toNat + b.toNat := by omega
  have hhigh : UInt8.ofNat ((2 ^ 8 * a.toNat + b.toNat) / 2 ^ 8) = a := by
    apply UInt8.toNat_inj.mp
    rw [UInt8.toNat_ofNat']
    omega
  have hlow : UInt8.ofNat (2 ^ 8 * a.toNat + b.toNat) = b := by
    apply UInt8.toNat_inj.mp
    rw [UInt8.toNat_ofNat']
    omega
  rw [u16beBytes, u16be, UInt16.toNat_ofNat', hmod, hhigh, hlow]

theorem exists_u16be {b : Bytes} (h : 2 ≤ b.length) : ∃ v rest, b = u16beBytes v ++ rest := by
  rcases b with _ | ⟨x, _ | ⟨y, rest⟩⟩
  · simp at h
  · simp at h
  · exact ⟨u16be x y, rest, by rw [u16beBytes_u16be]; rfl⟩

theorem u32le_bytes (v : UInt32) :
    u32le (UInt8.ofNat v.toNat) (UInt8.ofNat (v.toNat / 2 ^ 8)) (UInt8.ofNat (v.toNat / 2 ^ 16))
      (UInt8.ofNat (v.toNat / 2 ^ 24)) = v := by
  apply UInt32.toNat_inj.mp
  have hv := v.toNat_lt
  simp only [u32le, UInt32.toNat_ofNat', UInt8.toNat_ofNat']
  omega
