import Mathlib.Data.Nat.ModEq
import Mathlib.Tactic.Common

/-!
# Sums with end-around carry

Words are the numbers below a base `b`, and a carry out of a sum is added back at the
low end. Such a sum depends only on the plain sum of the words: it is the
representative of that sum modulo `b - 1`, where zero stands for an empty sum and
every other multiple of `b - 1` for itself.
-/

set_option autoImplicit false

namespace OnesComplement

/-- The word an end-around sum comes to when the plain sum is `s`. -/
def residue (b s : Nat) : Nat := if s = 0 then 0 else (s - 1) % (b - 1) + 1

def add (b x y : Nat) : Nat := (x + y) % b + (x + y) / b

def sum (b : Nat) (ws : List Nat) : Nat := ws.foldl (add b) 0

variable {b s t : Nat}

theorem residue_zero (b : Nat) : residue b 0 = 0 := if_pos rfl

theorem residue_lt (hb : 2 ≤ b) (s : Nat) : residue b s < b := by
  unfold residue
  split
  · omega
  · have hlt := Nat.mod_lt (s - 1) (show 0 < b - 1 by omega)
    omega

theorem residue_of_lt (h : s < b) : residue b s = s := by
  unfold residue
  split
  · omega
  · rw [Nat.mod_eq_of_lt (by omega)]
    omega

theorem residue_eq_zero : residue b s = 0 ↔ s = 0 := by
  unfold residue
  constructor
  · intro h
    by_cases hs : s = 0
    · exact hs
    · rw [if_neg hs] at h
      omega
  · intro h
    rw [if_pos h]

theorem residue_modEq (b s : Nat) : residue b s ≡ s [MOD b - 1] := by
  unfold residue
  split
  · rename_i h
    rw [h]
  · have h := (Nat.mod_modEq (s - 1) (b - 1)).add_right 1
    rwa [Nat.sub_add_cancel (by omega)] at h

theorem residue_congr (hz : s = 0 ↔ t = 0) (h : s ≡ t [MOD b - 1]) : residue b s = residue b t := by
  unfold residue
  by_cases hs : s = 0
  · rw [if_pos hs, if_pos (hz.mp hs)]
  · have ht : t ≠ 0 := fun ht => hs (hz.mpr ht)
    rw [if_neg hs, if_neg ht]
    have hsub : s - 1 ≡ t - 1 [MOD b - 1] := by
      apply Nat.ModEq.add_right_cancel' 1
      rwa [Nat.sub_add_cancel (by omega), Nat.sub_add_cancel (by omega)]
    rw [hsub]

theorem residue_eq_iff :
    residue b s = residue b t ↔ (s = 0 ↔ t = 0) ∧ s ≡ t [MOD b - 1] := by
  constructor
  · intro h
    constructor
    · rw [← residue_eq_zero (b := b), h, residue_eq_zero]
    · exact (residue_modEq b s).symm.trans (h ▸ residue_modEq b t)
  · intro h
    exact residue_congr h.1 h.2

theorem residue_carry (hb : 2 ≤ b) (s : Nat) : residue b (s % b + s / b) = residue b s := by
  have hdiv := Nat.mod_add_div s b
  apply residue_congr
  · constructor
    · intro h
      obtain ⟨hr, hq⟩ := Nat.add_eq_zero_iff.mp h
      rw [hr, hq] at hdiv
      exact hdiv.symm
    · intro h
      rw [h, Nat.zero_mod, Nat.zero_div]
  · have hone : b = 1 + (b - 1) := by omega
    have hcarry : b * (s / b) ≡ s / b [MOD b - 1] := by
      have hmul : b ≡ 1 [MOD b - 1] := by
        conv_lhs => rw [hone]
        exact Nat.add_modEq_right
      have h := hmul.mul_right (s / b)
      rwa [Nat.one_mul] at h
    have h := hcarry.symm.add_left (s % b)
    rwa [hdiv] at h

theorem residue_add (b s t : Nat) : residue b (residue b s + t) = residue b (s + t) := by
  apply residue_congr
  · have hz := residue_eq_zero (b := b) (s := s)
    omega
  · exact (residue_modEq b s).add_right t

theorem add_eq_residue {x y : Nat} (hx : x < b) (hy : y < b) : add b x y = residue b (x + y) := by
  have hb : 2 ≤ b ∨ b = 1 := by omega
  rcases hb with hb | rfl
  · rw [add, ← residue_carry hb, residue_of_lt]
    by_cases h : x + y < b
    · rw [Nat.mod_eq_of_lt h, Nat.div_eq_of_lt h]
      omega
    · have hq : (x + y) / b = 1 := Nat.div_eq_of_lt_le (by omega) (by omega)
      have hdiv := Nat.mod_add_div (x + y) b
      rw [hq] at hdiv ⊢
      omega
  · obtain rfl : x = 0 := by omega
    obtain rfl : y = 0 := by omega
    rfl

theorem sum_eq_residue (hb : 2 ≤ b) {ws : List Nat} (h : ∀ w ∈ ws, w < b) :
    sum b ws = residue b ws.sum := by
  have hfold : ∀ (ws : List Nat) (s : Nat), (∀ w ∈ ws, w < b) →
      ws.foldl (add b) (residue b s) = residue b (s + ws.sum) := by
    intro ws
    induction ws with
    | nil => intro s _; rfl
    | cons w ws ih =>
      intro s hws
      have hw := hws w List.mem_cons_self
      rw [List.foldl_cons, add_eq_residue (residue_lt hb s) hw, residue_add,
        ih _ (fun v hv => hws v (List.mem_cons_of_mem _ hv)), List.sum_cons, Nat.add_assoc]
  have hall := hfold ws 0 h
  rwa [residue_zero, Nat.zero_add] at hall

end OnesComplement
