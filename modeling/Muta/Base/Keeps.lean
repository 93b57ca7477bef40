import Muta.Base.Act

/-!
# Conditions an action leaves in place

`Keeps I p` says that `p`, started where `I` holds, ends where `I` holds, whether it
returns or stops. The rules follow the way actions are built, so that a program made of
steps that keep `I` keeps it as a whole.
-/

set_option autoImplicit false

namespace Act

variable {ε σ α β : Type}

/-- However `p` ends, `I` holds after it if it did before. -/
def Keeps (I : σ → Prop) (p : Act ε σ α) : Prop := ∀ s, I s → I (p s).2

namespace Keeps

variable {I : σ → Prop}

theorem pure (a : α) : Keeps I (pure a : Act ε σ α) := by
  intro s h
  exact h

theorem state : Keeps I (state : Act ε σ σ) := by
  intro s h
  exact h

theorem stop (e : ε) : Keeps I (stop e : Act ε σ α) := by
  intro s h
  exact h

theorem ofExcept (r : Except ε α) : Keeps I (ofExcept r : Act ε σ α) := by
  intro s h
  exact h

theorem bind {p : Act ε σ α} {k : α → Act ε σ β} (hp : Keeps I p) (hk : ∀ a, Keeps I (k a)) :
    Keeps I (p >>= k) := by
  intro s h
  have hmid := hp s h
  rw [bind_apply]
  rcases heq : p s with ⟨_ | a, t⟩
  · rw [heq] at hmid
    exact hmid
  · rw [heq] at hmid
    exact hk a t hmid

theorem attempt {p : Act ε σ α} (hp : Keeps I p) : Keeps I (attempt p) := by
  intro s h
  exact hp s h

theorem ite {c : Prop} [Decidable c] {p q : Act ε σ α} (hp : Keeps I p) (hq : Keeps I q) :
    Keeps I (if c then p else q) := by
  split
  · exact hp
  · exact hq

theorem iter {out : ε} {body : β → Act ε σ (β ⊕ α)} (hbody : ∀ b, Keeps I (body b)) (n : Nat)
    (b : β) : Keeps I (iter out body n b) := by
  induction n generalizing b with
  | zero => exact stop out
  | succ n ih =>
    refine bind (hbody b) ?_
    intro r
    cases r with
    | inl c => exact ih c
    | inr a => exact pure a

end Keeps

end Act
