import Mathlib.Tactic.Common

/-!
# Machines that take one input at a time

A run is recorded by the inputs taken so far, each beside the state it was taken in, so
that a property of whole histories is a property of one list. A run may be confined to
inputs that meet a condition on what they find.
-/

set_option autoImplicit false

structure Machine (σ ι : Type) where
  start : σ
  step : σ → ι → σ

namespace Machine

variable {σ ι : Type} {m : Machine σ ι}

/-- The runs of `m` whose inputs all meet `ok`, with what was taken on the way. -/
inductive Run (m : Machine σ ι) (ok : List (σ × ι) → σ → ι → Prop) : List (σ × ι) → σ → Prop where
  | start : Run m ok [] m.start
  | take {past : List (σ × ι)} {s : σ} (i : ι) : Run m ok past s → ok past s i →
      Run m ok (past ++ [(s, i)]) (m.step s i)

def any (_ : List (σ × ι)) (_ : σ) (_ : ι) : Prop := True

def trace (m : Machine σ ι) : σ → List ι → List (σ × ι)
  | _, [] => []
  | s, i :: inputs => (s, i) :: m.trace (m.step s i) inputs

theorem map_snd_trace (m : Machine σ ι) (s : σ) (inputs : List ι) :
    (m.trace s inputs).map Prod.snd = inputs := by
  induction inputs generalizing s with
  | nil => rfl
  | cons i inputs ih => rw [trace, List.map_cons, ih]

theorem concat_eq {α : Type} {past before after : List α} {x y : α}
    (h : past ++ [x] = before ++ y :: after) :
    (after = [] ∧ past = before ∧ x = y) ∨
      ∃ rest, after = rest ++ [x] ∧ past = before ++ y :: rest := by
  rcases List.eq_nil_or_concat after with rfl | ⟨rest, last, rfl⟩
  · obtain ⟨hpast, heq⟩ := List.append_inj' h rfl
    exact Or.inl ⟨rfl, hpast, List.head_eq_of_cons_eq heq⟩
  · rw [List.concat_eq_append, ← List.cons_append, ← List.append_assoc] at h
    obtain ⟨hpast, heq⟩ := List.append_inj' h rfl
    refine Or.inr ⟨rest, ?_, hpast⟩
    rw [List.concat_eq_append, heq]

section Latest

variable {κ ν : Type} [DecidableEq κ]

def write (store : κ → Option ν) : Option (κ × ν) → κ → Option ν
  | some (k, v), i => if i = k then some v else store i
  | none, i => store i

/-- What was last written under a key, where an input writes what `w` says. -/
def latest (w : σ → ι → Option (κ × ν)) (past : List (σ × ι)) (k : κ) : Option ν :=
  (past.filterMap fun x => w x.1 x.2).reverse.lookup k

variable {w : σ → ι → Option (κ × ν)} {past : List (σ × ι)}

theorem latest_concat (past : List (σ × ι)) (s : σ) (i : ι) :
    latest w (past ++ [(s, i)]) = write (latest w past) (w s i) := by
  funext k
  cases hw : w s i with
  | none => simp [latest, write, hw]
  | some entry =>
    obtain ⟨k', v⟩ := entry
    by_cases hk : k = k'
    · simp [latest, write, hw, hk]
    · have hbeq : (k == k') = false := beq_false_of_ne hk
      simp [latest, write, hw, hk, List.lookup_cons, hbeq]

theorem exists_of_latest {k : κ} {v : ν} (h : latest w past k = some v) :
    ∃ x ∈ past, w x.1 x.2 = some (k, v) := by
  obtain ⟨later, earlier, hall, _⟩ := List.lookup_eq_some_iff.mp h
  have hmem : (k, v) ∈ (past.filterMap fun x => w x.1 x.2).reverse := by simp [hall]
  rw [List.mem_reverse, List.mem_filterMap] at hmem
  exact hmem

end Latest

namespace Run

variable {ok : List (σ × ι) → σ → ι → Prop} {past : List (σ × ι)} {s : σ}

/-- What holds at the start and survives every input that passes holds along every run. -/
theorem invariant {P : List (σ × ι) → σ → Prop} (start : P [] m.start)
    (take : ∀ past s i, P past s → ok past s i → P (past ++ [(s, i)]) (m.step s i))
    (run : Run m ok past s) : P past s := by
  induction run with
  | start => exact start
  | take i _ hok ih => exact take _ _ i ih hok

theorem takeAll (inputs : List ι) (run : Run m any past s) :
    Run m any (past ++ m.trace s inputs) (inputs.foldl m.step s) := by
  induction inputs generalizing past s with
  | nil => simpa [trace] using run
  | cons i inputs ih => simpa [trace] using ih (run.take i trivial)

theorem before {rest : List (σ × ι)} {t : σ} {i : ι}
    (run : Run m ok (past ++ (s, i) :: rest) t) : Run m ok past s ∧ ok past s i := by
  generalize hall : past ++ (s, i) :: rest = all at run
  induction run generalizing rest with
  | start => simp at hall
  | @take earlier u j hrun hok ih =>
    rcases concat_eq hall.symm with ⟨_, rfl, heq⟩ | ⟨rest, _, hearlier⟩
    · cases heq
      exact ⟨hrun, hok⟩
    · exact ih hearlier.symm

theorem unique {t : σ} (run : Run m ok past s) (other : Run m ok past t) : s = t := by
  generalize hall : past = all at other
  cases other with
  | start =>
    subst hall
    generalize hnil : ([] : List (σ × ι)) = past at run
    cases run with
    | start => rfl
    | take i _ _ => simp at hnil
  | @take past' u i hother _ =>
    subst hall
    generalize hall : past' ++ [(u, i)] = past at run
    cases run with
    | start => simp at hall
    | take j _ _ =>
      obtain ⟨_, heq⟩ := List.append_inj' hall rfl
      cases heq
      rfl

/-- What holds in a state of a run and survives every later input holds from there on. -/
theorem since {P : List (σ × ι) → σ → Prop} {more : List (σ × ι)} {t : σ} (run : Run m ok past s)
    (start : P [] s)
    (take : ∀ more u i, P more u → ok (past ++ more) u i → P (more ++ [(u, i)]) (m.step u i))
    (later : Run m ok (past ++ more) t) : P more t := by
  generalize hall : past ++ more = all at later
  induction later generalizing more with
  | start =>
    obtain ⟨rfl, rfl⟩ := List.append_eq_nil_iff.mp hall
    rwa [run.unique .start] at start
  | @take earlier u i hrun hok ih =>
    rcases List.eq_nil_or_concat more with rfl | ⟨rest, last, rfl⟩
    · rw [List.append_nil] at hall
      subst hall
      rwa [run.unique (hrun.take i hok)] at start
    · rw [List.concat_eq_append, ← List.append_assoc] at hall
      obtain ⟨rfl, heq⟩ := List.append_inj' hall rfl
      cases heq
      exact List.concat_eq_append ▸ take rest u i (ih rfl) hok

/-- Where one input keeps `P` exactly if it meets `good`, a whole run keeps `P` exactly if
all its inputs do. -/
theorem always_iff {P : σ → Prop} {good : σ → ι → Prop} (start : P m.start)
    (step : ∀ past s i, Run m any past s → P s → (P (m.step s i) ↔ good s i))
    (run : Run m any past s) :
    (∀ x ∈ past, P x.1) ∧ P s ↔ ∀ x ∈ past, good x.1 x.2 := by
  induction run with
  | start => simp [start]
  | @take past s i hrun _ ih =>
    have hstep := step past s i hrun
    simp only [List.forall_mem_append, List.forall_mem_singleton]
    constructor
    · intro h
      exact ⟨ih.mp h.1, (hstep h.1.2).mp h.2⟩
    · intro h
      have hpast := ih.mpr h.1
      exact ⟨hpast, (hstep hpast.2).mpr h.2⟩

/-- Where every input stands in `R` to all before it, any two of a run do. -/
theorem pairwise {R : σ × ι → σ × ι → Prop}
    (step : ∀ past s i, Run m ok past s → ok past s i → ∀ x ∈ past, R x (s, i))
    (run : Run m ok past s) : past.Pairwise R := by
  induction run with
  | start => exact List.Pairwise.nil
  | @take past s i hrun hok ih =>
    rw [List.pairwise_append]
    refine ⟨ih, List.pairwise_singleton R _, ?_⟩
    intro x hx y hy
    rw [List.mem_singleton] at hy
    rw [hy]
    exact step past s i hrun hok x hx

/-- A store that starts empty and is written by the inputs holds what was last written. -/
theorem store_eq_latest {κ ν : Type} [DecidableEq κ] {w : σ → ι → Option (κ × ν)}
    {g : σ → κ → Option ν} (start : ∀ k, g m.start k = none)
    (step : ∀ s i, g (m.step s i) = write (g s) (w s i)) (run : Run m ok past s) :
    g s = latest w past := by
  induction run with
  | start => exact funext start
  | take i _ _ ih => rw [step, ih, latest_concat]

end Run

end Machine
