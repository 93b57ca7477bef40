import Muta.Base.OnesComplement
import Muta.Netstack.Ipv4

/-!
# The Internet checksum over parts

The checksum of a string is the complement of the end-around sum of its words. The
code is given the string in parts and carries an odd byte from one part to the next.
An empty part takes the byte away: it is padded as if the string ended there, and what
follows starts a new word. `runs` cuts the string at these places, and every second run
ends up one byte off.
-/

namespace Muta.Netstack.Ipv4

open OnesComplement
set_option autoImplicit false

variable {ε : Type}

/-- The big-endian words, an odd last byte padded with zero. -/
def wordsOf : Bytes → List Nat
  | a :: b :: rest => (u16be a b).toNat :: wordsOf rest
  | [a] => [(u16be a 0).toNat]
  | [] => []

/-- The one's-complement checksum of RFC 1071. -/
def rfc1071 (bytes : Bytes) : UInt16 := ~~~ UInt16.ofNat (OnesComplement.sum (2 ^ 16) (wordsOf bytes))

def highs : Bytes → Nat
  | a :: _ :: rest => a.toNat + highs rest
  | [a] => a.toNat
  | [] => 0

def lows : Bytes → Nat
  | _ :: b :: rest => b.toNat + lows rest
  | [_] => 0
  | [] => 0

def plainSum (bytes : Bytes) : Nat := 2 ^ 8 * highs bytes + lows bytes

theorem toNat_u16be (a b : UInt8) : (u16be a b).toNat = 2 ^ 8 * a.toNat + b.toNat := by
  have ha := a.toNat_lt
  have hb := b.toNat_lt
  rw [u16be, UInt16.toNat_ofNat']
  omega

theorem plainSum_cons_cons (a b : UInt8) (rest : Bytes) :
    plainSum (a :: b :: rest) = (u16be a b).toNat + plainSum rest := by
  rw [toNat_u16be, plainSum, plainSum, highs, lows]
  omega

theorem plainSum_singleton (a : UInt8) : plainSum [a] = (u16be a 0).toNat := by
  rw [toNat_u16be, plainSum, highs, lows]
  rfl

theorem sum_wordsOf (bytes : Bytes) : (wordsOf bytes).sum = plainSum bytes := by
  induction bytes using wordsOf.induct with
  | case1 a b rest ih => rw [wordsOf, List.sum_cons, ih, plainSum_cons_cons]
  | case2 a => rw [wordsOf, List.sum_singleton, plainSum_singleton]
  | case3 => rfl

theorem mem_wordsOf_lt {bytes : Bytes} {w : Nat} (h : w ∈ wordsOf bytes) : w < 2 ^ 16 := by
  induction bytes using wordsOf.induct with
  | case1 a b rest ih =>
    rw [wordsOf] at h
    rcases List.mem_cons.mp h with rfl | h
    · exact UInt16.toNat_lt _
    · exact ih h
  | case2 a =>
    rw [wordsOf, List.mem_singleton] at h
    rw [h]
    exact UInt16.toNat_lt _
  | case3 => cases h

theorem rfc1071_eq (bytes : Bytes) :
    rfc1071 bytes = ~~~ UInt16.ofNat (residue (2 ^ 16) (plainSum bytes)) := by
  rw [rfc1071, sum_eq_residue (by decide) (fun w => mem_wordsOf_lt), sum_wordsOf]

theorem plainSum_le (bytes : Bytes) : 2 * plainSum bytes ≤ 65535 * (bytes.length + 1) := by
  induction bytes using wordsOf.induct with
  | case1 a b rest ih =>
    have hword := (u16be a b).toNat_lt
    rw [plainSum_cons_cons, List.length_cons, List.length_cons]
    omega
  | case2 a =>
    have hword := (u16be a 0).toNat_lt
    rw [plainSum_singleton, List.length_singleton]
    omega
  | case3 => decide

theorem halves_append_even {x : Bytes} (h : x.length % 2 = 0) (y : Bytes) :
    highs (x ++ y) = highs x + highs y ∧ lows (x ++ y) = lows x + lows y := by
  induction x using wordsOf.induct with
  | case1 a b rest ih =>
    simp only [List.length_cons] at h
    obtain ⟨hh, hl⟩ := ih (by omega)
    simp only [List.cons_append, highs, lows, hh, hl, Nat.add_assoc, and_self]
  | case2 a => simp at h
  | case3 => simp [highs, lows]

theorem halves_cons (a : UInt8) (y : Bytes) :
    highs (a :: y) = a.toNat + lows y ∧ lows (a :: y) = highs y := by
  induction y using wordsOf.induct generalizing a with
  | case1 b c rest ih =>
    obtain ⟨hh, hl⟩ := ih c
    simp only [highs, lows, hh, hl, and_self]
  | case2 b => simp [highs, lows]
  | case3 => simp [highs, lows]

theorem halves_append_odd {x y : Bytes} (h : x.length % 2 = 1 ∨ y = []) :
    highs (x ++ y) = highs x + lows y ∧ lows (x ++ y) = lows x + highs y := by
  rcases h with h | rfl
  · obtain ⟨a, x, rfl⟩ : ∃ a rest, x = a :: rest := by
      cases x with
      | nil => simp at h
      | cons a rest => exact ⟨a, rest, rfl⟩
    have hx : x.length % 2 = 0 := by
      rw [List.length_cons] at h
      omega
    obtain ⟨hh, hl⟩ := halves_append_even hx y
    rw [List.cons_append]
    simp only [(halves_cons a _).1, (halves_cons a _).2, hh, hl, Nat.add_assoc, and_self]
  · simp [highs, lows]

theorem plainSum_append_even {x : Bytes} (h : x.length % 2 = 0) (y : Bytes) :
    plainSum (x ++ y) = plainSum x + plainSum y := by
  obtain ⟨hh, hl⟩ := halves_append_even h y
  rw [plainSum, hh, hl, plainSum, plainSum]
  omega

/-- The parts joined into runs: an empty part behind an odd number of bytes ends the
run in progress. -/
def runs (run : Bytes) : List Bytes → List Bytes
  | [] => [run]
  | part :: parts =>
    if part = [] ∧ run.length % 2 = 1 then run :: runs [] parts else runs (run ++ part) parts

def everySecond {α : Type} : List α → List α
  | _ :: b :: rest => b :: everySecond rest
  | _ => []

/-- The runs that start at an odd place of the whole string. -/
def displaced (parts : List Bytes) : List Bytes := everySecond (runs [] parts)

/-- What the code adds up: each run is padded to whole words. -/
def runSum (run : Bytes) (parts : List Bytes) : Nat := ((runs run parts).map plainSum).sum

theorem runSum_nil (run : Bytes) : runSum run [] = plainSum run := by
  rw [runSum, runs, List.map_singleton, List.sum_singleton]

theorem runSum_cut {run : Bytes} (h : run.length % 2 = 1) (parts : List Bytes) :
    runSum run ([] :: parts) = plainSum run + runSum [] parts := by
  rw [runSum, runs, if_pos ⟨rfl, h⟩, List.map_cons, List.sum_cons]
  rfl

theorem runSum_join {run part : Bytes} (h : ¬ (part = [] ∧ run.length % 2 = 1)) (parts : List Bytes) :
    runSum run (part :: parts) = runSum (run ++ part) parts := by
  rw [runSum, runs, if_neg h]
  rfl

theorem runSum_even {x : Bytes} (h : x.length % 2 = 0) (run : Bytes) (parts : List Bytes) :
    runSum (x ++ run) parts = plainSum x + runSum run parts := by
  induction parts generalizing run with
  | nil => rw [runSum_nil, runSum_nil, plainSum_append_even h]
  | cons part parts ih =>
    have hparity : (x ++ run).length % 2 = run.length % 2 := by
      rw [List.length_append]
      omega
    by_cases hcut : part = [] ∧ run.length % 2 = 1
    · obtain ⟨rfl, hrun⟩ := hcut
      rw [runSum_cut (hparity.trans hrun), runSum_cut hrun, plainSum_append_even h, Nat.add_assoc]
    · rw [runSum_join (by rw [hparity]; exact hcut), runSum_join hcut, List.append_assoc, ih]

theorem runSum_word (a b : UInt8) (run : Bytes) (parts : List Bytes) :
    runSum (a :: b :: run) parts = (u16be a b).toNat + runSum run parts := by
  have h := runSum_even (x := [a, b]) (by simp) run parts
  rw [plainSum_cons_cons] at h
  exact h

theorem inWord_overflow (n : Nat) (h : 2 ^ 32 ≤ n) : (inWord 32 n : Checked ε Nat) = .fault .overflow :=
  if_neg (Nat.not_lt.mpr h)

theorem sumWords_runs {parts : List Bytes} (ih : ∀ (sum : Nat) (carryByte : Option UInt8), sum < 2 ^ 32 →
      (sumParts sum carryByte parts : Checked ε _) = inWord 32 (sum + runSum carryByte.toList parts))
    (sum : Nat) (bytes : Bytes) (h : sum < 2 ^ 32) :
    (do
      let (sum, carryByte) ← sumWords sum bytes
      sumParts sum carryByte parts) = (inWord 32 (sum + runSum bytes parts) : Checked ε _) := by
  induction sum, bytes using sumWords.induct with
  | case1 sum a b rest hrest =>
    rw [sumWords, runSum_word, ← Nat.add_assoc]
    by_cases hlt : sum + (u16be a b).toNat < 2 ^ 32
    · rw [inWord_ok hlt, Checked.ok_bind]
      exact hrest _ hlt
    · rw [inWord_overflow _ (by omega), inWord_overflow _ (by omega)]
      rfl
  | case2 sum last => exact ih sum (some last) h
  | case3 sum => exact ih sum none h

/-- The loop computes the sum over the runs, or overflows. -/
theorem sumParts_runs (parts : List Bytes) (sum : Nat) (carryByte : Option UInt8)
    (h : sum < 2 ^ 32) :
    (sumParts sum carryByte parts : Checked ε _) =
      inWord 32 (sum + runSum carryByte.toList parts) := by
  induction parts generalizing sum carryByte with
  | nil =>
    rw [runSum_nil]
    cases carryByte with
    | none => exact (inWord_ok h).symm
    | some high =>
      rw [Option.toList_some, plainSum_singleton]
      rfl
  | cons part parts ih =>
    rw [sumParts]
    cases carryByte with
    | none =>
      rw [Option.toList_none, runSum_join (by simp)]
      exact sumWords_runs ih sum part h
    | some high =>
      rw [Option.toList_some, sumPart]
      have hword : runSum [high] (part :: parts) =
          (u16be high (part.headD 0)).toNat + runSum part.tail parts := by
        cases part with
        | nil => rw [runSum_cut rfl, plainSum_singleton]; rfl
        | cons low part => rw [runSum_join (by simp)]; exact runSum_word high low part parts
      rw [hword, ← Nat.add_assoc]
      by_cases hlt : sum + (u16be high (part.headD 0)).toNat < 2 ^ 32
      · rw [inWord_ok hlt, Checked.ok_bind]
        exact sumWords_runs ih _ part.tail hlt
      · rw [inWord_overflow _ (by omega), inWord_overflow _ (by omega)]
        rfl

theorem fold_eq (sum : Nat) : fold sum = residue (2 ^ 16) sum := by
  induction sum using fold.induct with
  | case1 sum h =>
    rw [fold, if_pos h, residue_of_lt]
    omega
  | case2 sum h ih =>
    rw [fold, if_neg h, ih, residue_carry (by decide)]

theorem checksum_eq (parts : List Bytes) :
    (checksum parts : Checked ε _) =
      if runSum [] parts < 2 ^ 32 then .ok (~~~ UInt16.ofNat (residue (2 ^ 16) (runSum [] parts)))
      else .fault .overflow := by
  have hsum := sumParts_runs (ε := ε) parts 0 none (by decide)
  rw [Nat.zero_add, Option.toList_none] at hsum
  rw [checksum, hsum]
  split
  · rename_i h
    rw [inWord_ok h, Checked.ok_bind, fold_eq]
    rfl
  · rename_i h
    rw [inWord_overflow _ (Nat.le_of_not_lt h)]
    rfl

theorem runs_ne_nil (run : Bytes) (parts : List Bytes) : runs run parts ≠ [] := by
  induction parts generalizing run with
  | nil => simp [runs]
  | cons part parts ih =>
    rw [runs]
    split
    · simp
    · exact ih _

theorem flatten_runs (run : Bytes) (parts : List Bytes) :
    (runs run parts).flatten = run ++ parts.flatten := by
  induction parts generalizing run with
  | nil => simp [runs]
  | cons part parts ih =>
    rw [runs]
    split
    · rename_i h
      rw [List.flatten_cons, ih, h.1]
      rfl
    · rw [ih, List.flatten_cons, List.append_assoc]

def OddRuns (rs : List Bytes) : Prop := ∀ r ∈ rs.dropLast, r.length % 2 = 1

theorem oddRuns_runs (run : Bytes) (parts : List Bytes) : OddRuns (runs run parts) := by
  induction parts generalizing run with
  | nil =>
    intro r hr
    cases hr
  | cons part parts ih =>
    rw [runs]
    split
    · rename_i h
      intro r hr
      rw [List.dropLast_cons_of_ne_nil (runs_ne_nil _ _)] at hr
      rcases List.mem_cons.mp hr with rfl | hr
      · exact h.2
      · exact ih [] r hr
    · exact ih _

theorem OddRuns.tail {r : Bytes} {rs : List Bytes} (h : OddRuns (r :: rs)) :
    (r.length % 2 = 1 ∨ rs.flatten = []) ∧ OddRuns rs := by
  cases rs with
  | nil => exact ⟨Or.inr rfl, fun _ hr => by cases hr⟩
  | cons r' rs =>
    constructor
    · exact Or.inl (h r List.mem_cons_self)
    · intro q hq
      exact h q (List.mem_cons_of_mem r hq)

/-- How far the sum over the runs is from the sum of the whole string. -/
theorem sum_runs {rs : List Bytes} (h : OddRuns rs) :
    (rs.map plainSum).sum + 255 * ((everySecond rs).map lows).sum =
        plainSum rs.flatten + 255 * ((everySecond rs).map highs).sum ∧
      ((everySecond rs).map highs).sum + ((everySecond rs).map lows).sum ≤ plainSum rs.flatten ∧
      ((everySecond rs).map highs).sum + ((everySecond rs).map lows).sum ≤
        (rs.map plainSum).sum := by
  induction rs using everySecond.induct with
  | case1 r r' rs ih =>
    obtain ⟨hr, htail⟩ := h.tail
    obtain ⟨hr', hrest⟩ := htail.tail
    obtain ⟨ih, ihle, ihrun⟩ := ih hrest
    rw [List.flatten_cons, List.flatten_cons] at *
    obtain ⟨hh, hl⟩ := halves_append_odd hr
    obtain ⟨hh', hl'⟩ := halves_append_odd hr'
    simp only [everySecond, List.map_cons, List.sum_cons, plainSum, hh, hl, hh', hl'] at ih ihle ihrun ⊢
    omega
  | case2 rs hrs =>
    have hshort : everySecond rs = [] := by
      rw [everySecond]
      exact hrs
    rw [hshort]
    cases rs with
    | nil => simp [plainSum, highs, lows]
    | cons r rs =>
      cases rs with
      | nil => simp
      | cons r' rs => exact (hrs r r' rs rfl).elim

/-- The bytes one place off carry the same weight in both halves of the words, and do
not push the sum out of its 32 bits. -/
def Balanced (parts : List Bytes) : Prop :=
  ((displaced parts).map highs).sum ≡ ((displaced parts).map lows).sum [MOD 257] ∧
  plainSum parts.flatten + 255 * ((displaced parts).map highs).sum <
    2 ^ 32 + 255 * ((displaced parts).map lows).sum

theorem complement_inj {m n : Nat} (hm : m < 2 ^ 16) (hn : n < 2 ^ 16) :
    (~~~ UInt16.ofNat m) = ~~~ UInt16.ofNat n ↔ m = n := by
  constructor
  · intro h
    have hw : UInt16.ofNat m = UInt16.ofNat n := UInt16.not_inj.mp h
    rw [← UInt16.toNat_ofNat_of_lt' hm, hw, UInt16.toNat_ofNat_of_lt' hn]
  · intro h
    rw [h]

theorem runs_nonempty {parts : List Bytes} (h : ∀ part ∈ parts, part ≠ []) (run : Bytes) :
    runs run parts = [run ++ parts.flatten] := by
  induction parts generalizing run with
  | nil => simp [runs]
  | cons part parts ih =>
    have hpart := h part List.mem_cons_self
    rw [runs, if_neg (fun hcut => hpart hcut.1),
      ih (fun p hp => h p (List.mem_cons_of_mem _ hp)), List.flatten_cons, List.append_assoc]

theorem checksum_nonempty {parts : List Bytes} (h : ∀ part ∈ parts, part ≠ [])
    (hlen : parts.flatten.length ≤ 131072) :
    (checksum parts : Checked ε _) = .ok (rfc1071 parts.flatten) := by
  have hsum : runSum [] parts = plainSum parts.flatten := by
    rw [runSum, runs_nonempty h, List.nil_append, List.map_singleton, List.sum_singleton]
  have hle := plainSum_le parts.flatten
  rw [checksum_eq, hsum, if_pos (by omega), rfc1071_eq]

/-- The checksum of the parts is the checksum of the string exactly when the displaced
runs are balanced. -/
theorem checksum_parts_iff (parts : List Bytes) :
    (checksum parts : Checked ε _) = .ok (rfc1071 parts.flatten) ↔ Balanced parts := by
  obtain ⟨hsum, hwhole, hruns⟩ := sum_runs (oddRuns_runs [] parts)
  rw [flatten_runs, List.nil_append] at hsum hwhole
  have hrun : ((runs [] parts).map plainSum).sum = runSum [] parts := rfl
  rw [checksum_eq, rfc1071_eq, Balanced, displaced]
  rw [hrun] at hsum hruns
  generalize ((everySecond (runs [] parts)).map highs).sum = H at *
  generalize ((everySecond (runs [] parts)).map lows).sum = L at *
  have hmod : residue (2 ^ 16) (runSum [] parts) = residue (2 ^ 16) (plainSum parts.flatten) ↔
      H ≡ L [MOD 257] := by
    rw [residue_eq_iff]
    simp only [Nat.ModEq]
    omega
  split
  · rename_i hlt
    rw [Checked.ok.injEq, complement_inj (residue_lt (by decide) _) (residue_lt (by decide) _), hmod]
    constructor
    · intro h
      exact ⟨h, by omega⟩
    · exact And.left
  · rename_i hlt
    constructor
    · intro h
      cases h
    · intro h
      omega

/-- An empty part between two bytes of one word sets them apart. -/
theorem checksum_empty_part : ∃ parts : List Bytes, parts.flatten.length ≤ 131072 ∧
    (checksum parts : Checked Error _) ≠ .ok (rfc1071 parts.flatten) := by
  refine ⟨[[1], [], [2]], by decide, ?_⟩
  rw [checksum_eq, rfc1071_eq]
  decide

end Muta.Netstack.Ipv4
