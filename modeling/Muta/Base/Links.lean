import Mathlib.Logic.Relation
import Muta.Base.Table

/-!
# Tables with links

An entry of such a table is a value, or a link to another key. Links are followed from a key
until one is reached that is no link, and given up after a number of them. Where links lead
is bounded by sets of keys that no link leaves: writing values and removing entries keeps
such a set closed, and so does moving an entry within it.
-/

set_option autoImplicit false

inductive Node (κ ν : Type) where
  | file (value : ν)
  | link (target : κ)
deriving DecidableEq, Repr

namespace Links

variable {κ ν : Type} [DecidableEq κ] {nodes : Table κ (Node κ ν)} {S : κ → Prop} {k k' t : κ}
  {ks : List κ}

abbrev IsLink (nodes : Table κ (Node κ ν)) (k t : κ) : Prop := nodes.lookup k = some (.link t)

/-- The key that `k` leads to, over fewer than `n` links. -/
def follow (nodes : Table κ (Node κ ν)) : Nat → κ → Option κ
  | 0, _ => none
  | n + 1, k =>
    match nodes.lookup k with
    | some (.link t) => follow nodes n t
    | _ => some k

theorem follow_of_plain (n : Nat) (h : ∀ t, ¬ IsLink nodes k t) : follow nodes (n + 1) k = some k := by
  rw [follow]
  split
  · rename_i t hlink
    exact absurd hlink (h t)
  · rfl

theorem not_isLink_of_follow {n : Nat} (h : follow nodes n k = some k') : ¬ IsLink nodes k' t := by
  induction n generalizing k with
  | zero => cases h
  | succ n ih =>
    rw [follow] at h
    split at h
    · exact ih h
    · rename_i hplain
      cases h
      exact hplain t

/-- Values are written without changing where links lead. -/
theorem follow_insert_file (hplain : ∀ t, ¬ IsLink nodes k t) (v : ν) (n : Nat) (k' : κ) :
    follow (nodes.insert k (.file v)) n k' = follow nodes n k' := by
  induction n generalizing k' with
  | zero => rfl
  | succ n ih =>
    by_cases hk : k' = k
    · rw [hk, follow_of_plain n hplain]
      apply follow_of_plain
      intro t hlink
      rw [IsLink, Finmap.lookup_insert] at hlink
      cases hlink
    · rw [follow, follow, Finmap.lookup_insert_of_ne nodes hk]
      split
      · exact ih _
      · rfl

def Closed (S : κ → Prop) (nodes : Table κ (Node κ ν)) : Prop := ∀ k t, S k → IsLink nodes k t → S t

namespace Closed

theorem follow (h : Closed S nodes) {n : Nat} (hk : S k) (hfollow : follow nodes n k = some k') :
    S k' := by
  induction n generalizing k with
  | zero => cases hfollow
  | succ n ih =>
    rw [Links.follow] at hfollow
    split at hfollow
    · rename_i t hlink
      exact ih (h k t hk hlink) hfollow
    · cases hfollow
      exact hk

theorem insert (h : Closed S nodes) (k : κ) {node : Node κ ν} (hnode : ∀ t, node = .link t → S t) :
    Closed S (nodes.insert k node) := by
  intro a t ha hlink
  by_cases hak : a = k
  · rw [hak, IsLink, Finmap.lookup_insert] at hlink
    exact hnode t (Option.some.inj hlink)
  · rw [IsLink, Finmap.lookup_insert_of_ne nodes hak] at hlink
    exact h a t ha hlink

theorem insert_file (h : Closed S nodes) (k : κ) (v : ν) : Closed S (nodes.insert k (.file v)) := by
  apply h.insert
  intro t ht
  cases ht

/-- Entries that are removed lead nowhere. -/
theorem of_links {nodes' : Table κ (Node κ ν)} (h : Closed S nodes)
    (hlinks : ∀ k t, IsLink nodes' k t → IsLink nodes k t) : Closed S nodes' := by
  intro k t hk hlink
  exact h k t hk (hlinks k t hlink)

theorem erase (h : Closed S nodes) (k : κ) : Closed S (nodes.erase k) := by
  apply h.of_links
  intro a t hlink
  by_cases hak : a = k
  · rw [hak, IsLink, Finmap.lookup_erase] at hlink
    cases hlink
  · rwa [IsLink, Finmap.lookup_erase_ne hak] at hlink

theorem eraseAll (h : Closed S nodes) (ks : List κ) : Closed S (Table.eraseAll ks nodes) := by
  apply h.of_links
  intro a t hlink
  by_cases hak : a ∈ ks
  · rw [IsLink, Table.lookup_eraseAll_of_mem hak] at hlink
    cases hlink
  · rwa [IsLink, Table.lookup_eraseAll_of_notMem hak] at hlink

end Closed

/-- The keys `ks`, and all that links lead to from them. -/
def Reached (nodes : Table κ (Node κ ν)) (ks : List κ) (k : κ) : Prop :=
  ∃ start ∈ ks, Relation.ReflTransGen (IsLink nodes) start k

namespace Reached

theorem of_mem (h : k ∈ ks) : Reached nodes ks k := ⟨k, h, .refl⟩

theorem closed (nodes : Table κ (Node κ ν)) (ks : List κ) : Closed (Reached nodes ks) nodes := by
  intro k t hk hlink
  obtain ⟨start, hstart, hpath⟩ := hk
  exact ⟨start, hstart, hpath.tail hlink⟩

/-- It is the least closed set. -/
theorem le (h : Reached nodes ks k) (hclosed : Closed S nodes) (hks : ∀ k ∈ ks, S k) : S k := by
  obtain ⟨start, hstart, hpath⟩ := h
  induction hpath with
  | refl => exact hks start hstart
  | tail _ hlink ih => exact hclosed _ _ ih hlink

theorem mem_of_plain (h : Reached nodes ks k) (hplain : ∀ k ∈ ks, ∀ t, ¬ IsLink nodes k t) : k ∈ ks := by
  apply h.le
  · intro a t ha hlink
    exact absurd hlink (hplain a ha t)
  · intro a ha
    exact ha

end Reached

end Links
