import Mathlib.Tactic.Common

/-!
# Actions whose state survives failure

An action reads and writes a state `σ`, and either returns a value or stops with
some `ε`. Both outcomes keep the state reached, so that what an action did before
it stopped can still be observed. Loops are given a bound on their iterations and
stop with a chosen `ε` when the bound runs out.

`wp` is the weakest precondition of an action for two postconditions, one for
each outcome. The rules below compute it for the building blocks; a loop is
discharged by an invariant (`wp_iter`).
-/

set_option autoImplicit false

/-- A stateful action returning `α` or stopping with `ε`. -/
def Act (ε σ α : Type) : Type := σ → Except ε α × σ

namespace Act

variable {ε σ α β : Type}

instance : Monad (Act ε σ) where
  pure a := fun s => (.ok a, s)
  bind p k := fun s =>
    match p s with
    | (.ok a, t) => k a t
    | (.error e, t) => (.error e, t)

def state : Act ε σ σ := fun s => (.ok s, s)

def update (f : σ → σ) : Act ε σ Unit := fun s => (.ok (), f s)

def apply (f : σ → α × σ) : Act ε σ α := fun s => (.ok (f s).1, (f s).2)

def stop (e : ε) : Act ε σ α := fun s => (.error e, s)

/-- Turn a pure result into an action. -/
def ofExcept (r : Except ε α) : Act ε σ α := fun s => (r, s)

/-- Run `p` and hand its outcome on as a value, whatever it is. -/
def attempt (p : Act ε σ α) : Act ε σ (Except ε α) := fun s => (.ok (p s).1, (p s).2)

/-- Run `p`; where it stops, what was made before it is dropped. -/
def dropping (drop : σ → σ) (p : Act ε σ α) : Act ε σ α := fun s =>
  match p s with
  | (.ok a, t) => (.ok a, t)
  | (.error e, t) => (.error e, drop t)

/-- Run `p` on a part of the state. -/
def zoom {τ : Type} (get : σ → τ) (set : τ → σ → σ) (p : Act ε τ α) : Act ε σ α := fun s =>
  ((p (get s)).1, set (p (get s)).2 s)

/-- Run `body` from `b`; a left result starts the next iteration, a right one ends
the loop. After `n` iterations the loop stops with `out`. -/
def iter (out : ε) (body : β → Act ε σ (β ⊕ α)) : Nat → β → Act ε σ α
  | 0, _ => stop out
  | n + 1, b => do
    match ← body b with
    | .inl c => iter out body n c
    | .inr a => pure a

/-- The loop runs `body` without a loop variable until it gives a value. -/
def loop (out : ε) (body : Act ε σ (Option α)) (n : Nat) : Act ε σ α :=
  iter out (fun (_ : Unit) => do
    match ← body with
    | none => pure (.inl ())
    | some a => pure (.inr a)) n ()

section Evaluation

variable (s : σ)

@[simp] theorem pure_apply (a : α) : (pure a : Act ε σ α) s = (.ok a, s) := rfl

theorem bind_apply (p : Act ε σ α) (k : α → Act ε σ β) :
    (p >>= k) s =
      match p s with
      | (.ok a, t) => k a t
      | (.error e, t) => (.error e, t) := rfl

theorem bind_apply_ok {p : Act ε σ α} {a : α} {t : σ} (k : α → Act ε σ β)
    (h : p s = (.ok a, t)) : (p >>= k) s = k a t := by
  rw [bind_apply, h]

theorem bind_apply_error {p : Act ε σ α} {e : ε} {t : σ} (k : α → Act ε σ β)
    (h : p s = (.error e, t)) : (p >>= k) s = (.error e, t) := by
  rw [bind_apply, h]

theorem attempt_bind_apply (p : Act ε σ α) (k : Except ε α → Act ε σ β) :
    (attempt p >>= k) s = k (p s).1 (p s).2 := rfl

@[simp] theorem state_apply : (state : Act ε σ σ) s = (.ok s, s) := rfl

@[simp] theorem update_apply (f : σ → σ) : (update f : Act ε σ Unit) s = (.ok (), f s) := rfl

@[simp] theorem apply_apply (f : σ → α × σ) :
    (apply f : Act ε σ α) s = (.ok (f s).1, (f s).2) := rfl

end Evaluation

/-- `p`, started in `s`, returns only with `Q` and stops only with `E`. -/
def wp (p : Act ε σ α) (Q : α → σ → Prop) (E : ε → σ → Prop) (s : σ) : Prop :=
  match p s with
  | (.ok a, t) => Q a t
  | (.error e, t) => E e t

section Rules

variable {Q : α → σ → Prop} {E : ε → σ → Prop} {s : σ}

theorem wp_iff {p : Act ε σ α} :
    wp p Q E s ↔ (∀ a t, p s = (.ok a, t) → Q a t) ∧ (∀ e t, p s = (.error e, t) → E e t) := by
  unfold wp
  constructor
  · intro h
    constructor <;> intro x t hp <;> simpa [hp] using h
  · rintro ⟨hQ, hE⟩
    rcases hp : p s with ⟨_ | a, t⟩
    · exact hE _ _ hp
    · exact hQ _ _ hp

theorem wp_of_ok {p : Act ε σ α} {a : α} {t : σ} (h : p s = (.ok a, t)) : wp p Q E s ↔ Q a t := by
  rw [wp, h]

theorem wp_of_error {p : Act ε σ α} {e : ε} {t : σ} (h : p s = (.error e, t)) :
    wp p Q E s ↔ E e t := by
  rw [wp, h]

@[simp] theorem wp_pure {a : α} : wp (pure a) Q E s ↔ Q a s := Iff.rfl

@[simp] theorem wp_bind {p : Act ε σ β} {k : β → Act ε σ α} :
    wp (p >>= k) Q E s ↔ wp p (fun b t => wp (k b) Q E t) E s := by
  unfold wp
  rw [bind_apply]
  rcases p s with ⟨_ | b, t⟩ <;> rfl

@[simp] theorem wp_state {Q : σ → σ → Prop} : wp (state : Act ε σ σ) Q E s ↔ Q s s := Iff.rfl

@[simp] theorem wp_update {Q : Unit → σ → Prop} {f : σ → σ} :
    wp (update f) Q E s ↔ Q () (f s) := Iff.rfl

@[simp] theorem wp_apply {f : σ → α × σ} : wp (apply f) Q E s ↔ Q (f s).1 (f s).2 := Iff.rfl

@[simp] theorem wp_stop {e : ε} : wp (stop e) Q E s ↔ E e s := Iff.rfl

theorem wp_ofExcept {r : Except ε α} :
    wp (ofExcept r) Q E s ↔ (∀ a, r = .ok a → Q a s) ∧ (∀ e, r = .error e → E e s) := by
  unfold wp
  cases r <;> simp [ofExcept]

theorem wp_attempt {p : Act ε σ β} {Q : Except ε β → σ → Prop} :
    wp (attempt p) Q E s ↔ wp p (fun b t => Q (.ok b) t) (fun e t => Q (.error e) t) s := by
  unfold wp attempt
  rcases p s with ⟨_ | b, t⟩ <;> rfl

@[simp] theorem wp_dropping {p : Act ε σ α} {drop : σ → σ} :
    wp (dropping drop p) Q E s ↔ wp p Q (fun e t => E e (drop t)) s := by
  unfold wp dropping
  rcases p s with ⟨_ | a, t⟩ <;> rfl

theorem wp_zoom {τ : Type} {get : σ → τ} {set : τ → σ → σ} {p : Act ε τ α} :
    wp (zoom get set p) Q E s ↔
      wp p (fun a t => Q a (set t s)) (fun e t => E e (set t s)) (get s) := by
  unfold wp zoom
  rcases p (get s) with ⟨_ | a, t⟩ <;> rfl

theorem wp_snd {p : Act ε σ α} {P : σ → Prop} :
    wp p (fun _ => P) (fun _ => P) s ↔ P (p s).2 := by
  unfold wp
  rcases p s with ⟨_ | a, t⟩ <;> rfl

theorem wp_mono {p : Act ε σ α} {Q' : α → σ → Prop} {E' : ε → σ → Prop}
    (h : wp p Q E s) (hQ : ∀ a t, Q a t → Q' a t) (hE : ∀ e t, E e t → E' e t) :
    wp p Q' E' s := by
  rw [wp_iff] at h ⊢
  exact ⟨fun a t hp => hQ a t (h.1 a t hp), fun e t hp => hE e t (h.2 e t hp)⟩

/-- What an action that never stops leaves behind. -/
theorem wp_total {p : Act ε σ α} {P : σ → Prop} (h : wp p (fun _ => P) (fun _ _ => False) s) :
    P (p s).2 :=
  wp_snd.mp (wp_mono h (fun _ _ ht => ht) (fun _ _ hf => hf.elim))

theorem wp_and {p : Act ε σ α} {Q' : α → σ → Prop} {E' : ε → σ → Prop} (h : wp p Q E s)
    (h' : wp p Q' E' s) : wp p (fun a t => Q a t ∧ Q' a t) (fun e t => E e t ∧ E' e t) s := by
  rw [wp_iff] at h h' ⊢
  exact ⟨fun a t hp => ⟨h.1 a t hp, h'.1 a t hp⟩, fun e t hp => ⟨h.2 e t hp, h'.2 e t hp⟩⟩

theorem wp_ite {c : Prop} [Decidable c] {p q : Act ε σ α}
    (ht : c → wp p Q E s) (hf : ¬ c → wp q Q E s) : wp (if c then p else q) Q E s := by
  split
  · exact ht ‹_›
  · exact hf ‹_›

/-- The invariant rule. `I` holds whenever an iteration starts; running out of
iterations is one of the ways to stop. -/
theorem wp_iter {out : ε} {body : β → Act ε σ (β ⊕ α)} (I : β → σ → Prop)
    (hstep : ∀ b t, I b t →
      wp (body b) (fun r u => match r with | .inl c => I c u | .inr a => Q a u) E t)
    (hout : ∀ b t, I b t → E out t) (n : Nat) (b : β) (h : I b s) :
    wp (iter out body n b) Q E s := by
  induction n generalizing b s with
  | zero => exact hout b s h
  | succ n ih =>
    simp only [iter, wp_bind]
    refine wp_mono (hstep b s h) ?_ (fun _ _ he => he)
    intro r t hr
    cases r with
    | inl c => exact ih c hr
    | inr a => exact hr

theorem wp_loop {out : ε} {body : Act ε σ (Option α)} (I : σ → Prop)
    (hstep : ∀ t, I t →
      wp body (fun r u => match r with | none => I u | some a => Q a u) E t)
    (hout : ∀ t, I t → E out t) (n : Nat) (h : I s) : wp (loop out body n) Q E s := by
  refine wp_iter (fun _ t => I t) ?_ (fun _ t ht => hout t ht) n () h
  intro _ t ht
  rw [wp_bind]
  refine wp_mono (hstep t ht) ?_ (fun _ _ he => he)
  intro r u hr
  cases r <;> exact hr

/-- The rule for loops that end. `I n` holds where at most `n` more iterations follow this one,
so that a loop granted more than `n` iterations does not run out of them. -/
theorem wp_iter_within {out : ε} {body : β → Act ε σ (β ⊕ α)} (I : Nat → β → σ → Prop)
    (hstep : ∀ n b t, I n b t →
      wp (body b) (fun r u => match r with | .inl c => ∃ m < n, I m c u | .inr a => Q a u) E t)
    {n k : Nat} (hlt : k < n) (b : β) (h : I k b s) : wp (iter out body n b) Q E s := by
  induction n generalizing k b s with
  | zero => exact absurd hlt (Nat.not_lt_zero k)
  | succ n ih =>
    simp only [iter, wp_bind]
    refine wp_mono (hstep k b s h) ?_ (fun _ _ he => he)
    intro r t hr
    cases r with
    | inl c =>
      obtain ⟨m, hm, hc⟩ := hr
      exact ih (Nat.lt_of_lt_of_le hm (Nat.le_of_lt_succ hlt)) c hc
    | inr a => exact hr

theorem wp_loop_within {out : ε} {body : Act ε σ (Option α)} (I : Nat → σ → Prop)
    (hstep : ∀ n t, I n t →
      wp body (fun r u => match r with | none => ∃ m < n, I m u | some a => Q a u) E t)
    {n k : Nat} (hlt : k < n) (h : I k s) : wp (loop out body n) Q E s := by
  refine wp_iter_within (fun m _ t => I m t) ?_ hlt () h
  intro m _ t ht
  rw [wp_bind]
  refine wp_mono (hstep m t ht) ?_ (fun _ _ he => he)
  intro r u hr
  cases r <;> exact hr

end Rules

end Act
