import Muta.Base.Act

/-!
# Computations that reject or break down

A checked computation returns, rejects its input with an error of its own, or breaks
down with a `Fault`: a range outside a byte string, arithmetic that leaves the
machine's range, a value missing where one was promised. An action built from such
computations keeps the state it had reached in all three cases.
-/

set_option autoImplicit false

/-- What makes a checked computation break down. -/
inductive Fault where
  /-- An index or a range outside the byte string. -/
  | bounds
  /-- An operation whose exact result does not fit its machine type. -/
  | overflow
  /-- A value that was promised to be there and is not. -/
  | unwrap
deriving DecidableEq, Repr

/-- A computation that returns, rejects its input with an `ε`, or breaks down. -/
inductive Checked (ε α : Type) where
  | ok (a : α)
  | err (e : ε)
  | fault (f : Fault)
deriving DecidableEq, Repr

namespace Checked

variable {ε α β : Type}

instance : Monad (Checked ε) where
  pure := ok
  bind x k :=
    match x with
    | ok a => k a
    | err e => err e
    | fault f => fault f

def rejectIf (c : Prop) [Decidable c] (e : ε) : Checked ε Unit := if c then err e else ok ()

def ofExcept : Except ε α → Checked ε α
  | .ok a => ok a
  | .error e => err e

def toOption : Checked ε α → Option α
  | ok a => some a
  | _ => none

@[simp] theorem pure_eq (a : α) : (pure a : Checked ε α) = ok a := rfl

@[simp] theorem ok_bind (a : α) (k : α → Checked ε β) : (ok a : Checked ε α) >>= k = k a := rfl

theorem rejectIf_bind {c : Prop} [Decidable c] (h : c) (e : ε) (k : Unit → Checked ε β) :
    rejectIf c e >>= k = err e := by
  rw [rejectIf, if_pos h]
  rfl

theorem rejectIf_not_bind {c : Prop} [Decidable c] (h : ¬ c) (e : ε) (k : Unit → Checked ε β) :
    rejectIf c e >>= k = k () := by
  rw [rejectIf, if_neg h]
  rfl

@[simp] theorem ofExcept_ok (a : α) : ofExcept (.ok a : Except ε α) = ok a := rfl

/-- The computation does not break down. -/
def Safe (r : Checked ε α) : Prop := ∀ f, r ≠ fault f

theorem safe_ok (a : α) : Safe (ok a : Checked ε α) := by
  intro f h
  cases h

theorem safe_err (e : ε) : Safe (err e : Checked ε α) := by
  intro f h
  cases h

theorem Safe.bind {x : Checked ε α} {k : α → Checked ε β} (hx : Safe x)
    (hk : ∀ a, x = ok a → Safe (k a)) : Safe (x >>= k) := by
  cases x with
  | ok a => exact hk a rfl
  | err e => exact safe_err e
  | fault f => exact absurd rfl (hx f)

theorem safe_ite {c : Prop} [Decidable c] {x y : Checked ε α} (hx : c → Safe x) (hy : ¬ c → Safe y) :
    Safe (if c then x else y) := by
  by_cases h : c
  · rw [if_pos h]
    exact hx h
  · rw [if_neg h]
    exact hy h

theorem safe_rejectIf {c : Prop} [Decidable c] {e : ε} {k : Unit → Checked ε β}
    (hk : ¬ c → Safe (k ())) : Safe (rejectIf c e >>= k) := by
  by_cases h : c
  · rw [rejectIf_bind h]
    exact safe_err e
  · rw [rejectIf_not_bind h]
    exact hk h

end Checked

/-- Why an action made of checked computations stopped. -/
inductive Halt (ε : Type) where
  | err (e : ε)
  | fault (f : Fault)
deriving DecidableEq, Repr

namespace Act

variable {ε σ α : Type}

def checked : Checked ε α → Act (Halt ε) σ α
  | .ok a => pure a
  | .err e => stop (.err e)
  | .fault f => stop (.fault f)

/-- A computation that has nothing to reject. -/
def sure : Checked Empty α → Act Fault σ α
  | .ok a => pure a
  | .fault f => stop f

def unwrap : Option α → Act Fault σ α
  | some a => pure a
  | none => stop .unwrap

/-- An action that can only break down, among actions that also stop for `ε`. -/
def orFault (p : Act Fault σ α) : Act (Halt ε) σ α := fun s =>
  match p s with
  | (.ok a, t) => (.ok a, t)
  | (.error f, t) => (.error (.fault f), t)

/-- Run `p` and look at what it returned or rejected; a fault is passed on. -/
def rescue (p : Act (Halt ε) σ α) : Act Fault σ (Except ε α) := fun s =>
  match p s with
  | (.ok a, t) => (.ok (.ok a), t)
  | (.error (.err e), t) => (.ok (.error e), t)
  | (.error (.fault f), t) => (.error f, t)

section Rules

variable {Q : α → σ → Prop} {E : Halt ε → σ → Prop} {s : σ}

@[simp] theorem sure_ok (a : α) : (sure (.ok a) : Act Fault σ α) = pure a := rfl

theorem wp_orFault {p : Act Fault σ α} :
    wp (orFault p) Q E s ↔ wp p Q (fun f t => E (.fault f) t) s := by
  unfold wp orFault
  rcases p s with ⟨_ | a, t⟩ <;> rfl

end Rules

end Act
