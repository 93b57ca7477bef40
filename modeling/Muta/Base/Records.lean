import Mathlib.Data.List.Forall2

/-!
# Strings split into records

`P m d` says that the string `m` is one record holding `d`. `Splits` is a string read
as records followed by a rest. When a record is determined by any string it begins,
two ways of splitting agree as far as both go, so the one whose rest begins no
further record is the longest.
-/

set_option autoImplicit false

namespace Records

variable {α β : Type} {P : List α → β → Prop}

/-- `buf` is the records `ms`, holding `ds`, and then `rest`. -/
structure Splits (P : List α → β → Prop) (buf : List α) (ms : List (List α)) (ds : List β)
    (rest : List α) : Prop where
  records : List.Forall₂ P ms ds
  whole : buf = ms.flatten ++ rest

/-- A record is determined by any string it begins. -/
def Determined (P : List α → β → Prop) : Prop :=
  ∀ {m m' rest rest' : List α} {d d' : β}, P m d → P m' d' → m ++ rest = m' ++ rest' →
    m = m' ∧ d = d'

theorem Splits.nil (buf : List α) : Splits P buf [] [] buf :=
  ⟨.nil, rfl⟩

theorem Splits.cons {m buf : List α} {d : β} {ms : List (List α)} {ds : List β} {rest : List α}
    (hm : P m d) (h : Splits P buf ms ds rest) : Splits P (m ++ buf) (m :: ms) (d :: ds) rest := by
  refine ⟨.cons hm h.records, ?_⟩
  rw [List.flatten_cons, List.append_assoc, ← h.whole]

theorem Splits.tail {m buf : List α} {d : β} {ms : List (List α)} {ds : List β} {rest : List α}
    (h : Splits P buf (m :: ms) (d :: ds) rest) :
    P m d ∧ buf = m ++ (ms.flatten ++ rest) ∧ Splits P (ms.flatten ++ rest) ms ds rest := by
  cases h.records with
  | cons hm hs =>
    refine ⟨hm, ?_, hs, rfl⟩
    rw [h.whole, List.flatten_cons, List.append_assoc]

/-- A splitting whose rest begins no record extends every other one. -/
theorem Splits.longest (hP : Determined P) {buf rest rest' : List α} {ms ms' : List (List α)}
    {ds ds' : List β} (h : Splits P buf ms ds rest) (hrest : ∀ m d r, P m d → rest ≠ m ++ r)
    (h' : Splits P buf ms' ds' rest') : ms' <+: ms ∧ ds' <+: ds := by
  obtain ⟨hs', hw'⟩ := h'
  induction hs' generalizing buf ms ds with
  | nil => exact ⟨List.nil_prefix, List.nil_prefix⟩
  | @cons m' d' ms' ds' hm' hs' ih =>
    rw [List.flatten_cons, List.append_assoc] at hw'
    cases h.records with
    | nil =>
      have hb : buf = rest := h.whole
      exact absurd (hb.symm.trans hw') (hrest m' d' _ hm')
    | @cons m d ms ds hm hs =>
      obtain ⟨_, hw, htail⟩ := h.tail
      obtain ⟨rfl, rfl⟩ := hP hm hm' (hw.symm.trans hw')
      have hcut := List.append_cancel_left (hw.symm.trans hw')
      obtain ⟨hms, hds⟩ := ih htail hcut
      exact ⟨(List.prefix_cons_inj m).mpr hms, (List.prefix_cons_inj d).mpr hds⟩

theorem Splits.length_le {k : Nat} (hk : ∀ m d, P m d → k ≤ m.length) {buf rest : List α}
    {ms : List (List α)} {ds : List β} (h : Splits P buf ms ds rest) :
    ds.length * k + rest.length ≤ buf.length := by
  obtain ⟨hs, hw⟩ := h
  subst hw
  induction hs with
  | nil => simp
  | @cons m d ms ds hm hs ih =>
    have hlen := hk m d hm
    rw [List.flatten_cons, List.append_assoc, List.length_append, List.length_cons, Nat.succ_mul]
    omega

end Records
