import Mathlib.Algebra.Ring.GeomSum
import Mathlib.Data.Nat.ModEq
import Mathlib.Data.Nat.Prime.Basic
import Mathlib.Tactic.Ring
import Mathlib.Tactic.Common

/-!
# Linear congruential generators modulo a power of two

The map `x ↦ a * x + c` modulo `2 ^ w` returns to a value only after a multiple of `2 ^ w`
steps, provided `a` leaves the remainder 1 modulo 4 and `c` is odd. After `k` steps the
value is `a ^ k * x + c * (1 + a + ... + a ^ (k - 1))`, so everything rests on when a
power of two divides such a sum.
-/

namespace Lcg

open Finset
set_option autoImplicit false

variable {a c w : Nat}

def step (a c m x : Nat) : Nat := (c + a * x) % m

theorem iterate_step (a c m k x : Nat) :
    (step a c m)^[k] x ≡ a ^ k * x + c * ∑ i ∈ range k, a ^ i [MOD m] := by
  induction k with
  | zero => simp [Nat.ModEq]
  | succ k ih =>
    rw [Function.iterate_succ_apply', geom_sum_succ]
    calc step a c m ((step a c m)^[k] x)
        ≡ c + a * (step a c m)^[k] x [MOD m] := Nat.mod_modEq _ _
      _ ≡ c + a * (a ^ k * x + c * ∑ i ∈ range k, a ^ i) [MOD m] :=
        Nat.ModEq.add_left _ (Nat.ModEq.mul_left _ ih)
      _ = a ^ (k + 1) * x + c * (a * ∑ i ∈ range k, a ^ i + 1) := by ring

theorem pow_mod_four (ha : a % 4 = 1) (k : Nat) : a ^ k % 4 = 1 := by
  rw [Nat.pow_mod, ha, Nat.one_pow]

theorem geomSum_mod_two (ha : a % 4 = 1) (k : Nat) : (∑ i ∈ range k, a ^ i) % 2 = k % 2 := by
  induction k with
  | zero => rfl
  | succ k ih =>
    have hpow := pow_mod_four ha k
    rw [sum_range_succ]
    omega

theorem geomSum_double (a k : Nat) :
    ∑ i ∈ range (2 * k), a ^ i = (∑ i ∈ range k, a ^ i) * (1 + a ^ k) := by
  rw [Nat.two_mul, sum_range_add]
  simp only [Nat.pow_add]
  rw [← mul_sum]
  ring

/-- A power of two divides `1 + a + ... + a ^ (k - 1)` only if it divides `k`. -/
theorem dvd_of_dvd_geomSum (ha : a % 4 = 1) {k : Nat} (h : 2 ^ w ∣ ∑ i ∈ range k, a ^ i) :
    2 ^ w ∣ k := by
  induction w generalizing k with
  | zero => exact Nat.one_dvd k
  | succ w ih =>
    have htwo : 2 ∣ ∑ i ∈ range k, a ^ i := Dvd.dvd.trans (Dvd.intro_left (2 ^ w) rfl) h
    have heven := geomSum_mod_two ha k
    obtain ⟨m, rfl⟩ : 2 ∣ k := by omega
    have hpow := pow_mod_four ha m
    obtain ⟨q, hq⟩ : 2 ∣ 1 + a ^ m := by omega
    have hodd : Nat.Coprime (2 ^ w) q := by
      apply Nat.Coprime.pow_left
      exact Nat.coprime_two_left.mpr (Nat.odd_iff.mpr (by omega))
    rw [geomSum_double, hq, Nat.pow_succ, ← Nat.mul_assoc, Nat.mul_right_comm] at h
    have hhalf := ih (hodd.dvd_of_dvd_mul_right (Nat.dvd_of_mul_dvd_mul_right (by omega) h))
    rw [Nat.pow_succ, Nat.mul_comm 2 m]
    exact Nat.mul_dvd_mul_right hhalf 2

theorem dvd_of_iterate (ha : a % 4 = 1) (hc : c % 2 = 1) {k x : Nat}
    (h : (step a c (2 ^ w))^[k] x ≡ x [MOD 2 ^ w]) : 2 ^ w ∣ k := by
  obtain ⟨b, rfl⟩ : ∃ b, a = b + 1 := ⟨a - 1, by omega⟩
  have hclosed := (iterate_step (b + 1) c (2 ^ w) k x).symm.trans h
  rw [← geom_sum_mul_add b k] at hclosed
  generalize hS : ∑ i ∈ range k, (b + 1) ^ i = S at hclosed
  have hdvd : 2 ^ w ∣ S * (b * x + c) := by
    have hadd : S * (b * x + c) + x ≡ 0 + x [MOD 2 ^ w] := by
      rw [Nat.zero_add]
      calc S * (b * x + c) + x = (S * b + 1) * x + c * S := by ring
        _ ≡ x [MOD 2 ^ w] := hclosed
    exact (Nat.modEq_zero_iff_dvd).mp (Nat.ModEq.add_right_cancel' x hadd)
  have hodd : Nat.Coprime (2 ^ w) (b * x + c) := by
    apply Nat.Coprime.pow_left
    have heven : b * x % 2 = 0 := by
      rw [Nat.mul_mod, show b % 2 = 0 by omega, Nat.zero_mul]
    exact Nat.coprime_two_left.mpr (Nat.odd_iff.mpr (by omega))
  rw [← hS] at hdvd
  exact dvd_of_dvd_geomSum ha (hodd.dvd_of_dvd_mul_right hdvd)

/-- Two values less than `2 ^ w` steps apart differ. -/
theorem iterate_ne (ha : a % 4 = 1) (hc : c % 2 = 1) {i j : Nat} (x : Nat) (hij : i < j)
    (hlt : j - i < 2 ^ w) : (step a c (2 ^ w))^[i] x ≠ (step a c (2 ^ w))^[j] x := by
  intro heq
  have hsplit : (step a c (2 ^ w))^[j] x = (step a c (2 ^ w))^[j - i] ((step a c (2 ^ w))^[i] x) := by
    rw [← Function.iterate_add_apply, Nat.sub_add_cancel (Nat.le_of_lt hij)]
  rw [heq] at hsplit
  have hdvd : 2 ^ w ∣ j - i := dvd_of_iterate ha hc (congrArg (· % 2 ^ w) hsplit.symm)
  exact absurd (Nat.le_of_dvd (by omega) hdvd) (by omega)

end Lcg
