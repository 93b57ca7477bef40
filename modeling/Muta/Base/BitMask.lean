import Mathlib.Tactic.Common

/-!
# Leading masks

A mask is leading when its ones stand in front of its zeros. The number of ones in a
mask tells which bits it selects only if it is leading: the strings that agree with a
given one in that many leading bits are the strings that agree with it under the mask
exactly for leading masks.
-/

set_option autoImplicit false

namespace BitMask

variable {w : Nat}

def Leading (m : BitVec w) : Prop := ∀ i j, i < j → m.getMsbD j = true → m.getMsbD i = true

def Agree (n : Nat) (a b : BitVec w) : Prop := ∀ i < n, a.getMsbD i = b.getMsbD i

theorem getMsbD_cons_succ (b : Bool) (x : BitVec w) (i : Nat) :
    (BitVec.cons b x).getMsbD (i + 1) = x.getMsbD i := by
  rw [BitVec.getMsbD_eq_getLsbD, BitVec.getMsbD_eq_getLsbD, BitVec.getLsbD_cons]
  by_cases hi : i < w
  · have hplace : w + 1 - 1 - (i + 1) = w - 1 - i := by omega
    rw [hplace, if_neg (show ¬ w - 1 - i = w by omega)]
    simp [hi]
  · simp [hi]

theorem getMsbD_cons_zero (b : Bool) (x : BitVec w) : (BitVec.cons b x).getMsbD 0 = b := by
  rw [BitVec.getMsbD_eq_getLsbD, BitVec.getLsbD_cons]
  simp

/-- When as many bits lead as there are ones, no one is left behind them. -/
theorem clear_of_full {m : BitVec w} (h : ∀ i < m.cpop.toNat, m.getMsbD i = true) :
    ∀ i, m.cpop.toNat ≤ i → m.getMsbD i = false := by
  induction m with
  | nil => intro i _; simp
  | cons b x ih =>
    rw [BitVec.toNat_cpop_cons] at h ⊢
    cases b with
    | true =>
      have hx : ∀ i < x.cpop.toNat, x.getMsbD i = true := by
        intro i hi
        rw [← getMsbD_cons_succ true x i]
        apply h
        rw [Bool.toNat_true]
        omega
      intro i hi
      rw [Bool.toNat_true] at hi
      obtain ⟨i, rfl⟩ : ∃ k, i = k + 1 := ⟨i - 1, by omega⟩
      rw [getMsbD_cons_succ]
      apply ih hx
      omega
    | false =>
      rw [Bool.toNat_false, Nat.zero_add] at h ⊢
      have hzero : x.cpop.toNat = 0 := by
        apply Nat.eq_zero_of_not_pos
        intro hpos
        have hbit := h 0 hpos
        rw [getMsbD_cons_zero] at hbit
        cases hbit
      intro i _
      cases i with
      | zero => exact getMsbD_cons_zero false x
      | succ i =>
        rw [getMsbD_cons_succ]
        apply ih
        · intro j hj
          omega
        · omega

theorem full_of_leading {m : BitVec w} (h : Leading m) : ∀ i < m.cpop.toNat, m.getMsbD i = true := by
  induction m with
  | nil =>
    intro i hi
    simp at hi
  | cons b x ih =>
    have hx : Leading x := by
      intro i j hij hj
      rw [← getMsbD_cons_succ b x] at hj ⊢
      exact h (i + 1) (j + 1) (by omega) hj
    intro i hi
    rw [BitVec.toNat_cpop_cons] at hi
    cases b with
    | true =>
      cases i with
      | zero => exact getMsbD_cons_zero true x
      | succ i =>
        rw [getMsbD_cons_succ]
        apply ih hx
        rw [Bool.toNat_true] at hi
        omega
    | false =>
      rw [Bool.toNat_false, Nat.zero_add] at hi
      -- A one of `x` would stand behind the zero in front.
      have hone := ih hx i hi
      rw [← getMsbD_cons_succ false x] at hone
      have hfront := h 0 (i + 1) (by omega) hone
      rw [getMsbD_cons_zero] at hfront
      cases hfront

theorem leading_iff (m : BitVec w) : Leading m ↔ ∀ i < m.cpop.toNat, m.getMsbD i = true := by
  constructor
  · exact full_of_leading
  · intro h i j hij hj
    apply h
    apply Nat.lt_of_lt_of_le hij
    apply Nat.le_of_not_lt
    intro hlt
    rw [clear_of_full h j (Nat.le_of_lt hlt)] at hj
    cases hj

theorem agree_iff_of_leading {m : BitVec w} (h : Leading m) (a x : BitVec w) :
    Agree m.cpop.toNat a (x &&& m) ↔ a &&& m = x &&& m := by
  have hfull := full_of_leading h
  have hclear := clear_of_full hfull
  constructor
  · intro hagree
    apply BitVec.eq_of_getMsbD_eq
    intro i _
    rw [BitVec.getMsbD_and, BitVec.getMsbD_and]
    by_cases hi : i < m.cpop.toNat
    · rw [hagree i hi, BitVec.getMsbD_and, hfull i hi, Bool.and_true, Bool.and_true]
    · rw [hclear i (Nat.le_of_not_lt hi), Bool.and_false, Bool.and_false]
  · intro heq i hi
    rw [← heq, BitVec.getMsbD_and, hfull i hi, Bool.and_true]

/-- The ones can be counted in place of the mask exactly when the mask is leading. -/
theorem forall_agree_iff (x m : BitVec w) :
    (∀ a, Agree m.cpop.toNat a (x &&& m) ↔ a &&& m = x &&& m) ↔ Leading m := by
  constructor
  · intro h
    rw [leading_iff]
    intro i hi
    -- Set every bit outside the mask: under the mask nothing changes.
    have hmask : ((x &&& m) ||| ~~~m) &&& m = x &&& m := by
      apply BitVec.eq_of_getMsbD_eq
      intro j hj
      simp only [BitVec.getMsbD_and, BitVec.getMsbD_or, BitVec.getMsbD_not, hj, decide_true,
        Bool.true_and]
      cases x.getMsbD j <;> cases m.getMsbD j <;> rfl
    have hagree := (h _).mpr hmask i hi
    have hw : i < w := Nat.lt_of_lt_of_le hi (BitVec.toNat_cpop_le m)
    simp only [BitVec.getMsbD_and, BitVec.getMsbD_or, BitVec.getMsbD_not, hw, decide_true,
      Bool.true_and] at hagree
    cases hm : m.getMsbD i with
    | true => rfl
    | false =>
      rw [hm] at hagree
      simp at hagree
  · intro h a
    exact agree_iff_of_leading h a x

theorem cpop_eq_zero {m : BitVec w} : m.cpop.toNat = 0 ↔ m = 0#w := by
  constructor
  · intro h
    apply BitVec.eq_of_getMsbD_eq
    intro i _
    rw [BitVec.getMsbD_zero]
    apply clear_of_full
    · intro j hj
      omega
    · omega
  · intro h
    rw [h]
    simp

end BitMask
