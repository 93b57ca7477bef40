import Mathlib.Tactic.Common

/-!
# Text

Text is a list of characters. The functions are those a line-based protocol is read with:
the next line of a stream, trimming at the end, splitting at the first separator.
-/

set_option autoImplicit false

abbrev Text := List Char

namespace Text

def decimal (n : Nat) : Text := Nat.toDigits 10 n

/-- The characters up to the first newline, which is kept. -/
def readLine : Text → Text
  | [] => []
  | c :: rest => if c = '\n' then ['\n'] else c :: readLine rest

/-- The characters with the White_Space property. -/
def isWhitespace (c : Char) : Bool :=
  (9 ≤ c.toNat && c.toNat ≤ 13) || c.toNat = 32 || c.toNat = 0x85 || c.toNat = 0xA0 ||
    c.toNat = 0x1680 || (0x2000 ≤ c.toNat && c.toNat ≤ 0x200A) || c.toNat = 0x2028 ||
    c.toNat = 0x2029 || c.toNat = 0x202F || c.toNat = 0x205F || c.toNat = 0x3000

def trimEnd (t : Text) : Text := (t.reverse.dropWhile isWhitespace).reverse

def splitOnce (separator : Char) : Text → Option (Text × Text)
  | [] => none
  | c :: rest =>
    if c = separator then some ([], rest)
    else (splitOnce separator rest).map fun parts => (c :: parts.1, parts.2)

theorem readLine_append {line : Text} (h : '\n' ∉ line) (rest : Text) :
    readLine (line ++ '\n' :: rest) = line ++ ['\n'] := by
  induction line with
  | nil => rfl
  | cons c line ih =>
    rw [List.mem_cons, not_or] at h
    rw [List.cons_append, readLine, if_neg (Ne.symm h.1), ih h.2]
    rfl

theorem trimEnd_append {c : Char} (h : isWhitespace c = false) (front back : Text) :
    trimEnd (front ++ c :: back) = front ++ c :: trimEnd back := by
  have hstop : ∀ l : Text, (l ++ c :: front.reverse).dropWhile isWhitespace =
      l.dropWhile isWhitespace ++ c :: front.reverse := by
    intro l
    induction l with
    | nil => simp [h]
    | cons d l ih =>
      by_cases hd : isWhitespace d
      · simp [hd, ih]
      · simp [hd]
  have hreverse : (front ++ c :: back).reverse = back.reverse ++ c :: front.reverse := by simp
  rw [trimEnd, hreverse, hstop, trimEnd]
  simp

theorem mem_of_mem_trimEnd {t : Text} {c : Char} (h : c ∈ trimEnd t) : c ∈ t := by
  rw [trimEnd, List.mem_reverse] at h
  exact List.mem_reverse.mp (List.dropWhile_subset _ h)

theorem splitOnce_append {separator : Char} {key : Text} (h : separator ∉ key) (value : Text) :
    splitOnce separator (key ++ separator :: value) = some (key, value) := by
  induction key with
  | nil => simp [splitOnce]
  | cons c key ih =>
    rw [List.mem_cons, not_or] at h
    rw [List.cons_append, splitOnce, if_neg (Ne.symm h.1), ih h.2]
    rfl

theorem not_mem_intercalate {c : Char} {separator : Text} (hsep : c ∉ separator) {ts : List Text}
    (h : ∀ t ∈ ts, c ∉ t) : c ∉ separator.intercalate ts := by
  induction ts with
  | nil => simp
  | cons t ts ih =>
    have hrest := ih fun u hu => h u (List.mem_cons_of_mem t hu)
    cases ts with
    | nil => simpa using h t List.mem_cons_self
    | cons u ts =>
      rw [List.intercalate_cons_cons, List.mem_append, List.mem_append, not_or, not_or]
      exact ⟨⟨h t List.mem_cons_self, hsep⟩, hrest⟩

theorem exists_intercalate_concat (separator : Text) (ts : List Text) (last : Text) :
    ∃ front, separator.intercalate (ts ++ [last]) = front ++ last := by
  induction ts with
  | nil => exact ⟨[], by simp⟩
  | cons t ts ih =>
    obtain ⟨front, hfront⟩ := ih
    refine ⟨t ++ separator ++ front, ?_⟩
    rw [List.cons_append, List.intercalate_cons_of_ne_nil (by simp), hfront]
    simp

theorem not_isWhitespace_of_isDigit {c : Char} (h : c.isDigit = true) : isWhitespace c = false := by
  simp only [Char.isDigit, Bool.and_eq_true, decide_eq_true_eq] at h
  have hlow : 48 ≤ c.toNat := h.1
  have hhigh : c.toNat ≤ 57 := h.2
  simp only [isWhitespace, Bool.or_eq_false_iff, Bool.and_eq_false_iff, decide_eq_false_iff_not]
  omega

theorem isDigit_of_mem_decimal {n : Nat} {c : Char} (h : c ∈ decimal n) : c.isDigit = true :=
  Nat.isDigit_of_mem_toDigits (by decide) (by decide) h

end Text
