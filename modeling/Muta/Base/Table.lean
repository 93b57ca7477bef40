import Mathlib.Data.Finmap

/-!
# Tables

Finite maps, with lists of entries written and lists of keys removed one after the other.
Writing under fresh keys and removing the keys again is the identity: two tables that
agree outside some keys are the same table once these keys are removed.
-/

set_option autoImplicit false

abbrev Table (κ ν : Type) := Finmap fun _ : κ => ν

namespace Table

variable {κ ν : Type} [DecidableEq κ] {m n : Table κ ν} {k : κ} {ks : List κ}

def eraseAll (ks : List κ) (m : Table κ ν) : Table κ ν := ks.foldl (fun m k => m.erase k) m

def insertAll (es : List (κ × ν)) (m : Table κ ν) : Table κ ν :=
  es.foldl (fun m e => m.insert e.1 e.2) m

theorem lookup_eraseAll_of_notMem (h : k ∉ ks) : (eraseAll ks m).lookup k = m.lookup k := by
  induction ks generalizing m with
  | nil => rfl
  | cons head ks ih =>
    rw [List.mem_cons, not_or] at h
    exact (ih h.2).trans (Finmap.lookup_erase_ne h.1)

theorem lookup_eraseAll_of_mem (h : k ∈ ks) : (eraseAll ks m).lookup k = none := by
  induction ks generalizing m with
  | nil => cases h
  | cons head ks ih =>
    by_cases hk : k ∈ ks
    · exact ih hk
    · rw [List.mem_cons, or_iff_left hk] at h
      subst h
      exact (lookup_eraseAll_of_notMem hk).trans (Finmap.lookup_erase k m)

def AgreeOff (ks : List κ) (m n : Table κ ν) : Prop := ∀ k, k ∉ ks → m.lookup k = n.lookup k

theorem AgreeOff.refl (ks : List κ) (m : Table κ ν) : AgreeOff ks m m := fun _ _ => rfl

theorem AgreeOff.insert (h : AgreeOff ks m n) (k : κ) (v : ν) :
    AgreeOff (ks ++ [k]) (m.insert k v) n := by
  intro k' hk'
  rw [List.mem_append, not_or, List.mem_singleton] at hk'
  exact (Finmap.lookup_insert_of_ne m hk'.2).trans (h k' hk'.1)

theorem AgreeOff.insertAll (h : AgreeOff ks m n) (es : List (κ × ν)) :
    AgreeOff (ks ++ es.map Prod.fst) (insertAll es m) n := by
  induction es generalizing ks m with
  | nil => simpa [Table.insertAll] using h
  | cons e es ih => simpa [Table.insertAll] using ih (h.insert e.1 e.2)

theorem lookup_insertAll {v : ν} {es : List (κ × ν)} (hkeys : (es.map Prod.fst).Nodup)
    (h : (k, v) ∈ es) : (insertAll es m).lookup k = some v := by
  induction es generalizing m with
  | nil => cases h
  | cons e es ih =>
    rw [List.map_cons, List.nodup_cons] at hkeys
    rcases List.mem_cons.mp h with rfl | h
    · have hoff := ((AgreeOff.refl [] (m.insert k v)).insertAll es) k hkeys.1
      exact hoff.trans (Finmap.lookup_insert m)
    · exact ih hkeys.2 h

theorem AgreeOff.eraseAll_eq (h : AgreeOff ks m n) (hfresh : ∀ k ∈ ks, k ∉ n) :
    eraseAll ks m = n := by
  apply Finmap.ext_lookup
  intro k
  by_cases hk : k ∈ ks
  · rw [lookup_eraseAll_of_mem hk, Finmap.lookup_eq_none.mpr (hfresh k hk)]
  · rw [lookup_eraseAll_of_notMem hk, h k hk]

/-- What is written under fresh keys is taken back by removing them. -/
theorem eraseAll_insertAll {es : List (κ × ν)} (hfresh : ∀ k ∈ es.map Prod.fst, k ∉ m) :
    eraseAll (es.map Prod.fst) (insertAll es m) = m :=
  ((AgreeOff.refl [] m).insertAll es).eraseAll_eq hfresh

theorem erase_of_notMem (h : k ∉ m) : m.erase k = m :=
  (AgreeOff.refl [k] m).eraseAll_eq (by simpa using h)

theorem erase_insert (h : k ∉ m) (v : ν) : (m.insert k v).erase k = m :=
  @eraseAll_insertAll κ ν _ m [(k, v)] (by simpa using h)

end Table
