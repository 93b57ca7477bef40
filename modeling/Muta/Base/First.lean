import Muta.Base.Checked

/-!
# The first element of a list

`First p l a` says that `a` is the first element of `l` with the property `p`. The
searches over lists are characterised by it, filtered or not, and a search whose steps
may break down is an ordinary one when none of them does.
-/

set_option autoImplicit false

/-- `a` is the first element of `l` that satisfies `p`. -/
def First {α : Type} (p : α → Prop) (l : List α) (a : α) : Prop :=
  ∃ before after, l = before ++ a :: after ∧ p a ∧ ∀ x ∈ before, ¬ p x

namespace First

variable {α β ε : Type} {p q : α → Prop} {l : List α} {a : α}

theorem mem (h : First p l a) : a ∈ l := by
  obtain ⟨before, after, rfl, _, _⟩ := h
  exact List.mem_append_right _ List.mem_cons_self

theorem holds (h : First p l a) : p a := by
  obtain ⟨_, _, _, ha, _⟩ := h
  exact ha

theorem congr (h : ∀ x ∈ l, p x ↔ q x) : First p l a ↔ First q l a := by
  constructor
  · intro hp
    obtain ⟨before, after, rfl, ha, hbefore⟩ := hp
    refine ⟨before, after, rfl, (h a (by simp)).mp ha, ?_⟩
    intro x hx hq
    exact hbefore x hx ((h x (List.mem_append_left _ hx)).mpr hq)
  · intro hq
    obtain ⟨before, after, rfl, ha, hbefore⟩ := hq
    refine ⟨before, after, rfl, (h a (by simp)).mpr ha, ?_⟩
    intro x hx hp
    exact hbefore x hx ((h x (List.mem_append_left _ hx)).mp hp)

theorem cons_iff {x : α} : First p (x :: l) a ↔ (p x ∧ a = x) ∨ (¬ p x ∧ First p l a) := by
  constructor
  · intro h
    obtain ⟨before, after, heq, ha, hbefore⟩ := h
    cases before with
    | nil =>
      obtain ⟨rfl, _⟩ := List.cons.inj heq
      exact Or.inl ⟨ha, rfl⟩
    | cons y before =>
      obtain ⟨rfl, rfl⟩ := List.cons.inj heq
      refine Or.inr ⟨hbefore x List.mem_cons_self, before, after, rfl, ha, ?_⟩
      intro z hz
      exact hbefore z (List.mem_cons_of_mem _ hz)
  · intro h
    rcases h with ⟨hx, rfl⟩ | ⟨hx, before, after, rfl, ha, hbefore⟩
    · exact ⟨[], l, rfl, hx, fun _ h => by cases h⟩
    · refine ⟨x :: before, after, rfl, ha, ?_⟩
      intro z hz
      rcases List.mem_cons.mp hz with rfl | hz
      · exact hx
      · exact hbefore z hz

theorem unique {b : α} (ha : First p l a) (hb : First p l b) : a = b := by
  induction l with
  | nil => cases ha.mem
  | cons x l ih =>
    rcases cons_iff.mp ha with ⟨_, rfl⟩ | ⟨hx, ha⟩
    · rcases cons_iff.mp hb with ⟨_, rfl⟩ | ⟨hx, _⟩
      · rfl
      · exact absurd ha.holds hx
    · rcases cons_iff.mp hb with ⟨hpx, _⟩ | ⟨_, hb⟩
      · exact absurd hpx hx
      · exact ih ha hb

theorem exists_iff : (∃ a, First p l a) ↔ ∃ a ∈ l, p a := by
  constructor
  · intro h
    obtain ⟨a, h⟩ := h
    exact ⟨a, h.mem, h.holds⟩
  · intro h
    induction l with
    | nil =>
      obtain ⟨a, ha, _⟩ := h
      cases ha
    | cons x l ih =>
      by_cases hx : p x
      · exact ⟨x, cons_iff.mpr (Or.inl ⟨hx, rfl⟩)⟩
      · obtain ⟨a, ha, hpa⟩ := h
        rcases List.mem_cons.mp ha with rfl | ha
        · exact absurd hpa hx
        · obtain ⟨b, hb⟩ := ih ⟨a, ha, hpa⟩
          exact ⟨b, cons_iff.mpr (Or.inr ⟨hx, hb⟩)⟩

theorem find?_iff {f : α → Bool} : l.find? f = some a ↔ First (fun x => f x = true) l a := by
  induction l with
  | nil => simp [First]
  | cons x l ih =>
    rw [List.find?_cons, cons_iff, ← ih]
    cases hx : f x with
    | true => simp [eq_comm]
    | false => simp

theorem findSome?_iff {f : α → Option β} {b : β} :
    l.findSome? f = some b ↔ ∃ a, First (fun x => (f x).isSome) l a ∧ f a = some b := by
  induction l with
  | nil => simp [First]
  | cons x l ih =>
    rw [List.findSome?_cons]
    cases hx : f x with
    | some v =>
      constructor
      · intro h
        cases h
        exact ⟨x, cons_iff.mpr (Or.inl ⟨by rw [hx]; rfl, rfl⟩), hx⟩
      · intro h
        obtain ⟨a, hfirst, ha⟩ := h
        rcases cons_iff.mp hfirst with ⟨_, rfl⟩ | ⟨hnone, _⟩
        · exact hx.symm.trans ha
        · exact absurd (by rw [hx]; rfl) hnone
    | none =>
      have hnone : ¬ (f x).isSome := by simp [hx]
      constructor
      · intro h
        obtain ⟨a, hfirst, ha⟩ := ih.mp h
        exact ⟨a, cons_iff.mpr (Or.inr ⟨hnone, hfirst⟩), ha⟩
      · intro h
        obtain ⟨a, hfirst, ha⟩ := h
        rcases cons_iff.mp hfirst with ⟨hsome, _⟩ | ⟨_, hfirst⟩
        · exact absurd hsome hnone
        · exact ih.mpr ⟨a, hfirst, ha⟩

theorem filter_iff {f : α → Bool} :
    First p (l.filter f) a ↔ First (fun x => f x = true ∧ p x) l a := by
  induction l with
  | nil => simp [First]
  | cons x l ih =>
    rw [List.filter_cons, cons_iff, ← ih]
    cases hx : f x with
    | true => simp [cons_iff]
    | false => simp

/-- Where stopping means `p` or `q`, the search stops at a `q` exactly if it comes to one
without having passed a `p`. -/
theorem stops_iff : (∃ a, First (fun x => p x ∨ q x) l a ∧ q a) ↔
    ∃ before a after, l = before ++ a :: after ∧ (∀ x ∈ before, ¬ p x) ∧ q a := by
  constructor
  · intro h
    obtain ⟨a, ⟨before, after, rfl, _, hbefore⟩, hq⟩ := h
    exact ⟨before, a, after, rfl, fun x hx hp => hbefore x hx (Or.inl hp), hq⟩
  · intro h
    obtain ⟨before, a, after, rfl, hbefore, hq⟩ := h
    induction before with
    | nil => exact ⟨a, cons_iff.mpr (Or.inl ⟨Or.inr hq, rfl⟩), hq⟩
    | cons x before ih =>
      by_cases hx : q x
      · exact ⟨x, cons_iff.mpr (Or.inl ⟨Or.inr hx, rfl⟩), hx⟩
      · obtain ⟨b, hb, hqb⟩ := ih fun y hy => hbefore y (List.mem_cons_of_mem _ hy)
        have hpass : ¬ (p x ∨ q x) := by
          intro h
          rcases h with hp | hqx
          · exact hbefore x List.mem_cons_self hp
          · exact hx hqx
        exact ⟨b, cons_iff.mpr (Or.inr ⟨hpass, hb⟩), hqb⟩

/-- What a search ends with, other than nothing, is what the first step that is not
without a result ends with. -/
theorem findSomeM?_iff {f : α → Checked ε (Option β)} {r : Checked ε (Option β)} (hr : r ≠ .ok none) :
    l.findSomeM? f = r ↔ ∃ a, First (fun x => f x ≠ .ok none) l a ∧ f a = r := by
  induction l with
  | nil =>
    constructor
    · intro h
      exact absurd h.symm hr
    · intro h
      obtain ⟨a, ha, _⟩ := h
      cases ha.mem
  | cons x l ih =>
    by_cases hx : f x = .ok none
    · rw [List.findSomeM?_cons, hx, Checked.ok_bind]
      refine ih.trans (exists_congr fun a => and_congr_left fun _ => ?_)
      rw [cons_iff]
      simp [hx]
    · have hstop : (x :: l).findSomeM? f = f x := by
        rw [List.findSomeM?_cons]
        cases hfx : f x with
        | ok y =>
          cases y with
          | some b => rfl
          | none => exact absurd hfx hx
        | err e => rfl
        | fault w => rfl
      constructor
      · intro h
        exact ⟨x, cons_iff.mpr (Or.inl ⟨hx, rfl⟩), hstop.symm.trans h⟩
      · intro h
        obtain ⟨a, ha, hfa⟩ := h
        rcases cons_iff.mp ha with ⟨_, rfl⟩ | ⟨hpass, _⟩
        · exact hstop.trans hfa
        · exact absurd hx hpass

theorem findSomeM?_eq {f : α → Checked ε (Option β)} {g : α → Option β}
    (h : ∀ a ∈ l, f a = .ok (g a)) : l.findSomeM? f = .ok (l.findSome? g) := by
  induction l with
  | nil => rfl
  | cons x l ih =>
    have hrest := ih fun a ha => h a (List.mem_cons_of_mem _ ha)
    rw [List.findSomeM?_cons, List.findSome?_cons, h x List.mem_cons_self, Checked.ok_bind]
    cases g x with
    | some b => rfl
    | none => exact hrest

theorem findSomeM?_none_iff {f : α → Checked ε (Option β)} :
    l.findSomeM? f = .ok none ↔ ∀ a ∈ l, f a = .ok none := by
  constructor
  · intro h a ha
    by_contra hstop
    obtain ⟨b, hb⟩ := (exists_iff (p := fun x => f x ≠ .ok none)).mpr ⟨a, ha, hstop⟩
    have hend := (findSomeM?_iff hb.holds).mpr ⟨b, hb, rfl⟩
    exact hb.holds (hend.symm.trans h)
  · intro h
    rw [findSomeM?_eq (g := fun _ => none) h]
    exact congrArg Checked.ok (List.findSome?_eq_none_iff.mpr fun _ _ => rfl)

end First
