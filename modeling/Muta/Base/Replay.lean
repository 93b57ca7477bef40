import Mathlib.Logic.Function.Basic
import Mathlib.Tactic.Common

/-!
# Replaying changes

A store is a function, and a change gives one key a value or takes its value away. What a
key holds after some changes is decided by the last of them that touches it. So a history
may be replayed over a snapshot that already shows a part of it: what was seen twice makes
no difference.
-/

set_option autoImplicit false

structure Change (κ ν : Type) where
  key : κ
  value : Option ν

namespace Change

variable {κ ν : Type} [DecidableEq κ]

def apply (store : κ → Option ν) (c : Change κ ν) : κ → Option ν :=
  Function.update store c.key c.value

def replay (store : κ → Option ν) (cs : List (Change κ ν)) : κ → Option ν := cs.foldl apply store

/-- What the changes leave at a key, if they touch it. -/
def last : List (Change κ ν) → κ → Option (Option ν)
  | [], _ => none
  | c :: cs, k => (last cs k).or (if c.key = k then some c.value else none)

variable (store : κ → Option ν) (as bs cs : List (Change κ ν)) (k : κ)

theorem replay_append : replay store (as ++ bs) = replay (replay store as) bs :=
  List.foldl_append

theorem last_append : last (as ++ bs) k = (last bs k).or (last as k) := by
  induction as with
  | nil => rw [List.nil_append, last, Option.or_none]
  | cons a as ih => rw [List.cons_append, last, last, ih, Option.or_assoc]

theorem replay_apply : replay store cs k = (last cs k).getD (store k) := by
  induction cs generalizing store with
  | nil => rfl
  | cons c cs ih =>
    have hrest : replay store (c :: cs) = replay (apply store c) cs := rfl
    rw [hrest, ih, last, apply]
    by_cases hk : c.key = k
    · subst hk
      rw [if_pos rfl, Function.update_self]
      cases last cs c.key <;> rfl
    · rw [if_neg hk, Function.update_of_ne (Ne.symm hk), Option.or_none]

variable {store} in
/-- Only the store's own value at a key matters to what the key holds later. -/
theorem replay_congr {other : κ → Option ν} {k : κ} (h : store k = other k) :
    replay store cs k = replay other cs k := by
  rw [replay_apply, replay_apply, h]

/-- A snapshot taken after `as` and `bs` may be brought up to date from `bs` on. -/
theorem replay_over : replay (replay store (as ++ bs)) (bs ++ cs) = replay store (as ++ bs ++ cs) := by
  funext k
  simp only [replay_apply, last_append]
  cases last cs k with
  | some v => rfl
  | none => cases last bs k <;> rfl

theorem replay_again : replay (replay store bs) bs = replay store bs := by
  have hover := replay_over store [] bs []
  simpa using hover

end Change
