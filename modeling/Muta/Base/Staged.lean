import Muta.Base.Act

/-!
# Plans that are cut off at the first failure

A procedure made of stages carries them out in order and gives up at the first that fails.
What it did is then a beginning of what it planned: every stage but the last one reached
has succeeded, and nothing of the later ones was begun. `Staged` says this of an action
that leaves a log, and composes with it.
-/

set_option autoImplicit false

/-- `CutOff does plan done failed`: the doings `done` are those of the stages of `plan`,
down to the stage that failed, if one did. `does` says what a stage may do, and with what
outcome. -/
inductive CutOff {ς ω : Type} (does : ς → List ω → Bool → Prop) :
    List ς → List ω → Option ς → Prop where
  | finished : CutOff does [] [] none
  | passed {stage : ς} {plan : List ς} {l m : List ω} {failed : Option ς} : does stage l true →
      CutOff does plan m failed → CutOff does (stage :: plan) (l ++ m) failed
  | failed {stage : ς} {plan : List ς} {l : List ω} : does stage l false →
      CutOff does (stage :: plan) l (some stage)

namespace CutOff

variable {ς ω : Type} {does : ς → List ω → Bool → Prop} {plan more : List ς} {l m : List ω}
  {failed : Option ς} {stage : ς}

theorem append (h : CutOff does plan l none) (hmore : CutOff does more m failed) :
    CutOff does (plan ++ more) (l ++ m) failed := by
  generalize hnone : (none : Option ς) = r at h
  induction h with
  | finished => exact hmore
  | passed hdoes _ ih =>
    rw [List.cons_append, List.append_assoc]
    exact passed hdoes (ih hnone)
  | failed => cases hnone

theorem extend (h : CutOff does plan l (some stage)) (more : List ς) :
    CutOff does (plan ++ more) l (some stage) := by
  generalize hsome : some stage = r at h
  induction h with
  | finished => cases hsome
  | passed hdoes _ ih => exact passed hdoes (ih hsome)
  | failed hdoes =>
    cases hsome
    exact failed hdoes

theorem single (h : does stage l true) : CutOff does [stage] l none := by
  have hone := passed h finished
  rwa [List.append_nil] at hone

end CutOff

namespace Act

variable {ε σ α β ς ω : Type}

/-- The action carries out the plan, and stops with what a failed stage is blamed by. -/
def Staged (log : σ → List ω) (does : ς → List ω → Bool → Prop) (blames : ε → ς → Prop)
    (plan : List ς) (p : Act ε σ α) : Prop :=
  ∀ s, wp p (fun _ t => ∃ new, log t = log s ++ new ∧ CutOff does plan new none)
    (fun e t => ∃ new stage, log t = log s ++ new ∧ CutOff does plan new (some stage) ∧
      blames e stage) s

namespace Staged

variable {log : σ → List ω} {does : ς → List ω → Bool → Prop} {blames : ε → ς → Prop}
  {plan more : List ς}

theorem pure (a : α) : Staged log does blames [] (pure a : Act ε σ α) := by
  intro s
  exact ⟨[], (List.append_nil _).symm, .finished⟩

theorem bind_of {p : Act ε σ α} {k : α → Act ε σ β} {P : α → Prop}
    (hp : Staged log does blames plan p) (hP : ∀ s, wp p (fun a _ => P a) (fun _ _ => True) s)
    (hk : ∀ a, P a → Staged log does blames more (k a)) :
    Staged log does blames (plan ++ more) (p >>= k) := by
  intro s
  rw [wp_bind]
  refine wp_mono (wp_and (hp s) (hP s)) ?_ ?_
  · intro a t h
    obtain ⟨⟨front, hfront, hcut⟩, ha⟩ := h
    refine wp_mono (hk a ha t) ?_ ?_
    · intro b u h
      obtain ⟨back, hback, hcut'⟩ := h
      refine ⟨front ++ back, ?_, hcut.append hcut'⟩
      rw [hback, hfront, List.append_assoc]
    · intro e u h
      obtain ⟨back, stage, hback, hcut', hblames⟩ := h
      refine ⟨front ++ back, stage, ?_, hcut.append hcut', hblames⟩
      rw [hback, hfront, List.append_assoc]
  · intro e t h
    obtain ⟨⟨front, stage, hfront, hcut, hblames⟩, _⟩ := h
    exact ⟨front, stage, hfront, hcut.extend more, hblames⟩

theorem bind {p : Act ε σ α} {k : α → Act ε σ β} (hp : Staged log does blames plan p)
    (hk : ∀ a, Staged log does blames more (k a)) :
    Staged log does blames (plan ++ more) (p >>= k) := by
  apply bind_of (P := fun _ => True) hp
  · intro s
    rw [wp_iff]
    exact ⟨fun _ _ _ => trivial, fun _ _ _ => trivial⟩
  · intro a _
    exact hk a

theorem single {p : Act ε σ α} {stage : ς}
    (h : ∀ s, wp p (fun _ t => ∃ new, log t = log s ++ new ∧ does stage new true)
      (fun e t => ∃ new, log t = log s ++ new ∧ does stage new false ∧ blames e stage) s) :
    Staged log does blames [stage] p := by
  intro s
  refine wp_mono (h s) ?_ ?_
  · intro a t ht
    obtain ⟨new, hnew, hdoes⟩ := ht
    exact ⟨new, hnew, .single hdoes⟩
  · intro e t ht
    obtain ⟨new, hnew, hdoes, hblames⟩ := ht
    exact ⟨new, stage, hnew, .failed hdoes, hblames⟩

end Staged

end Act
