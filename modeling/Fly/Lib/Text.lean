import Mathlib.Algebra.Group.Int.Defs
import Mathlib.Data.List.Basic
import Mathlib.Data.List.TakeWhile

/-!
# Text

Texts as lists of characters, and what line and field readers do with them.

* `cut`, `splitMax` — the text in front of a separator and behind it, once or a bounded number of times;
* `lines` — the lines a loop of `getline` reads;
* `printInt`, `stoll` — decimal output of an integer, and the reader of a 64-bit integer: blanks, a
  sign, the digits that follow, nothing when there are no digits or the value does not fit.

Each reader has one lemma that says what it does with what the writer in front of it produced.
-/

namespace Fly.Lib

open List Int64 Nat

abbrev Text := List Char

/-! ### Fields -/

section Fields

variable {α : Type*} [DecidableEq α] {sep : α} {a b : List α}

/-- What stands in front of the first `sep` and what stands behind it. -/
def cut (sep : α) : List α → Option (List α × List α)
  | [] => none
  | c :: l => if c = sep then some ([], l) else (cut sep l).map fun p => (c :: p.1, p.2)

theorem cut_append (h : sep ∉ a) (b : List α) : cut sep (a ++ sep :: b) = some (a, b) := by
  induction a with
  | nil => rw [nil_append, cut, if_pos rfl]
  | cons c a ih =>
    rw [mem_cons, not_or] at h
    rw [cons_append, cut, if_neg (Ne.symm h.1), ih h.2]
    rfl

theorem cut_of_notMem (h : sep ∉ a) : cut sep a = none := by
  induction a with
  | nil => rfl
  | cons c a ih =>
    rw [mem_cons, not_or] at h
    rw [cut, if_neg (Ne.symm h.1), ih h.2]
    rfl

/-- The fields of a text cut at the first `n` separators at most. -/
def splitMax (sep : α) : ℕ → List α → List (List α)
  | 0, l => [l]
  | n + 1, l =>
    match cut sep l with
    | none => [l]
    | some p => p.1 :: splitMax sep n p.2

theorem splitMax_append (h : sep ∉ a) (n : ℕ) (b : List α) :
    splitMax sep (n + 1) (a ++ sep :: b) = a :: splitMax sep n b := by
  rw [splitMax, cut_append h]

theorem splitMax_of_notMem (h : sep ∉ a) (n : ℕ) : splitMax sep n a = [a] := by
  cases n with
  | zero => rfl
  | succ n => rw [splitMax, cut_of_notMem h]

end Fields

/-! ### Lines -/

section Lines

variable {α : Type*} [DecidableEq α] {nl : α}

/-- The lines of a text; a last line that is not ended counts if it is not empty. -/
def lines (nl : α) : List α → List (List α)
  | [] => []
  | c :: l =>
    if c = nl then [] :: lines nl l
    else
      match lines nl l with
      | [] => [[c]]
      | line :: rest => (c :: line) :: rest

theorem lines_append {line : List α} (h : nl ∉ line) (rest : List α) :
    lines nl (line ++ nl :: rest) = line :: lines nl rest := by
  induction line with
  | nil => rw [nil_append, lines, if_pos rfl]
  | cons c line ih =>
    rw [mem_cons, not_or] at h
    rw [cons_append, lines, if_neg (Ne.symm h.1), ih h.2]

/-- Lines written one behind the other are read back as they were. -/
theorem lines_flatMap {ls : List (List α)} (h : ∀ line ∈ ls, nl ∉ line) :
    lines nl (ls.flatMap fun line => line ++ [nl]) = ls := by
  induction ls with
  | nil => rfl
  | cons line ls ih =>
    rw [flatMap_cons, append_assoc, singleton_append,
      lines_append (h line mem_cons_self), ih fun l hl => h l (mem_cons_of_mem line hl)]

end Lines

/-! ### Integers -/

def printInt (i : ℤ) : Text :=
  if i < 0 then '-' :: toDigits 10 i.natAbs else toDigits 10 i.natAbs

def isSpace (c : Char) : Bool :=
  c == ' ' || c == '\t' || c == '\n' || c == '\x0b' || c == '\x0c' || c == '\r'

/-- The sign in front of a number, and what follows. -/
def readSign : Text → Bool × Text
  | '-' :: t => (true, t)
  | '+' :: t => (false, t)
  | t => (false, t)

/-- The 64-bit integer at the head of a text; what follows its digits is not looked at. -/
def stoll (t : Text) : Option Int64 :=
  let (negative, t) := readSign (t.dropWhile isSpace)
  let digits := t.takeWhile Char.isDigit
  if digits = [] then none
  else
    let value : ℤ := if negative then -(ofDigitChars 10 digits 0 : ℤ) else ofDigitChars 10 digits 0
    if -2 ^ 63 ≤ value ∧ value < 2 ^ 63 then some (ofInt value) else none

variable {c : Char}

theorem not_isSpace_of_isDigit (h : c.isDigit) : isSpace c = false := by
  rw [Bool.eq_false_iff]
  intro hs
  simp only [isSpace, Bool.or_eq_true, beq_iff_eq] at hs
  obtain ((((rfl | rfl) | rfl) | rfl) | rfl) | rfl := hs <;> exact absurd h (by decide)

theorem readSign_of_isDigit (h : c.isDigit) (t : Text) : readSign (c :: t) = (false, c :: t) := by
  unfold readSign
  split
  · next heq =>
    cases heq
    exact absurd h (by decide)
  · next heq =>
    cases heq
    exact absurd h (by decide)
  · rfl

theorem isDigit_toDigits {n : ℕ} (h : c ∈ toDigits 10 n) : c.isDigit :=
  isDigit_of_mem_toDigits (by decide) (le_refl 10) h

theorem takeWhile_toDigits (n : ℕ) : (toDigits 10 n).takeWhile Char.isDigit = toDigits 10 n :=
  takeWhile_eq_self_iff.mpr fun _ => isDigit_toDigits

/-- The digits of a number in front of the reader: no blank is skipped and no sign is found. -/
theorem readSign_toDigits (n : ℕ) :
    readSign ((toDigits 10 n).dropWhile isSpace) = (false, toDigits 10 n) := by
  obtain ⟨c, t, hct⟩ := exists_cons_of_ne_nil (toDigits_ne_nil (n := n) (b := 10))
  have hc : c.isDigit := isDigit_toDigits (n := n) (by rw [hct]; exact mem_cons_self)
  rw [hct, dropWhile_cons_of_neg (by rw [not_isSpace_of_isDigit hc]; decide), readSign_of_isDigit hc]

/-- A negative number: the sign is in front of the digits. -/
theorem readSign_minus_toDigits (n : ℕ) :
    readSign (('-' :: toDigits 10 n).dropWhile isSpace) = (true, toDigits 10 n) := by
  rfl

/-- A 64-bit integer is read back from its decimal text. -/
theorem stoll_printInt (v : Int64) : stoll (printInt v.toInt) = some v := by
  have hrange : -2 ^ 63 ≤ v.toInt ∧ v.toInt < 2 ^ 63 := ⟨le_toInt v, toInt_lt v⟩
  by_cases hneg : v.toInt < 0
  · have habs : -((v.toInt.natAbs : ℕ) : ℤ) = v.toInt := by omega
    rw [printInt, if_pos hneg, stoll, readSign_minus_toDigits]
    simp only [takeWhile_toDigits, toDigits_ne_nil, if_false, if_true, ofDigitChars_ten_toDigits,
      habs, if_pos hrange, ofInt_toInt]
  · have habs : ((v.toInt.natAbs : ℕ) : ℤ) = v.toInt := by omega
    rw [printInt, if_neg hneg, stoll, readSign_toDigits]
    simp only [takeWhile_toDigits, toDigits_ne_nil, if_false, ofDigitChars_ten_toDigits, habs,
      if_pos hrange, ofInt_toInt, Bool.false_eq_true]

theorem notMem_printInt (hdigit : c.isDigit = false) (hminus : c ≠ '-') (i : ℤ) : c ∉ printInt i := by
  have hdigits : c ∉ toDigits 10 i.natAbs := by
    intro hc
    rw [isDigit_toDigits hc] at hdigit
    exact absurd hdigit (by decide)
  rw [printInt]
  split
  · rw [mem_cons, not_or]
    exact ⟨hminus, hdigits⟩
  · exact hdigits

end Fly.Lib
