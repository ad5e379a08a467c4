import Mathlib.Data.BitVec
import Mathlib.Data.List.TakeWhile

/-!
# Formatted text

Decimal insertion into a text and extraction from it, as the streams of the C++
library do it in the C locale. An extraction skips white space, takes the longest
numeral and fails when there is none or when its value does not fit. Extracting
a number just behind its insertion returns it.
-/

namespace Formatted

/-- A value and the text behind it; `none` sets the fail bit, and nothing can be
extracted any more. -/
abbrev Extract (α : Type*) := List Char → Option (α × List Char)

def isSpace (c : Char) : Bool := c = ' ' ∨ ('\t' ≤ c ∧ c ≤ '\r')

def skipws (cs : List Char) : List Char := cs.dropWhile isSpace

def char : Extract Char := fun cs =>
  match skipws cs with
  | [] => none
  | c :: cs => some (c, cs)

def sign : List Char → Bool × List Char
  | '-' :: cs => (true, cs)
  | '+' :: cs => (false, cs)
  | cs => (false, cs)

def digits : Extract ℕ := fun cs =>
  let ds := cs.takeWhile Char.isDigit
  if ds = [] then none else some (Nat.ofDigitChars 10 ds 0, cs.dropWhile Char.isDigit)

/-- An unsigned number of `w` bits; a minus negates it modulo `2 ^ w`. -/
def unsigned (w : ℕ) : Extract (BitVec w) := fun cs =>
  let (minus, cs) := sign (skipws cs)
  match digits cs with
  | none => none
  | some (n, rest) =>
    if n < 2 ^ w then some (if minus then -BitVec.ofNat w n else BitVec.ofNat w n, rest) else none

def signed (w : ℕ) : Extract (BitVec w) := fun cs =>
  let (minus, cs) := sign (skipws cs)
  match digits cs with
  | none => none
  | some (n, rest) =>
    let z : ℤ := if minus then -n else n
    if -2 ^ (w - 1) ≤ z ∧ z < 2 ^ (w - 1) then some (BitVec.ofInt w z, rest) else none

/-- `strtoul` to the base 10, into `w` bits. Without a digit the result is zero; a value
that does not fit gives the largest one. -/
def strtoul (w : ℕ) (cs : List Char) : BitVec w :=
  let (minus, cs) := sign (skipws cs)
  match digits cs with
  | none => 0
  | some (n, _) =>
    if n < 2 ^ w then if minus then -BitVec.ofNat w n else BitVec.ofNat w n
    else BitVec.allOnes w

def Numeral (cs : List Char) (n : ℕ) : Prop :=
  cs ≠ [] ∧ (∀ c ∈ cs, c.isDigit = true) ∧ Nat.ofDigitChars 10 cs 0 = n

def showNat (n : ℕ) : List Char := Nat.toDigits 10 n

def showInt (z : ℤ) : List Char :=
  if z < 0 then '-' :: showNat z.natAbs else showNat z.natAbs

def getline : Extract (List Char) := fun cs =>
  if cs = [] then none
  else some (cs.takeWhile (· ≠ '\n'), (cs.dropWhile (· ≠ '\n')).tail)

def lines : List Char → List (List Char)
  | [] => []
  | c :: cs =>
    if c = '\n' then [] :: lines cs
    else
      match lines cs with
      | [] => [[c]]
      | l :: ls => (c :: l) :: ls

/-! ## Characters and digits -/

theorem isSpace_of_isDigit {c : Char} (h : c.isDigit = true) : isSpace c = false := by
  simp only [Char.isDigit, Bool.and_eq_true, decide_eq_true_eq] at h
  simp only [isSpace, decide_eq_false_iff_not, not_or, not_and]
  constructor
  · rintro rfl
    revert h
    decide
  · intro _ hle
    have hlt : (48 : UInt32) ≤ '\r'.val := UInt32.le_trans h.1 hle
    revert hlt
    decide

theorem skipws_cons {c : Char} (cs : List Char) (h : isSpace c = false) :
    skipws (c :: cs) = c :: cs := by
  simp only [skipws, List.dropWhile_cons, h, Bool.false_eq_true, if_false]

theorem char_cons {c : Char} (cs : List Char) (h : isSpace c = false) :
    char (c :: cs) = some (c, cs) := by
  simp only [char, skipws_cons cs h]

def NoDigit (cs : List Char) : Prop := ∀ c ∈ cs.head?, c.isDigit = false

theorem noDigit_nil : NoDigit [] := by
  intro c h
  cases h

theorem noDigit_cons {c : Char} (cs : List Char) (h : c.isDigit = false) : NoDigit (c :: cs) := by
  intro c' h'
  rw [List.head?_cons, Option.mem_some_iff] at h'
  rwa [← h']

theorem isDigit_of_mem_showNat {n : ℕ} {c : Char} (h : c ∈ showNat n) : c.isDigit = true :=
  Nat.isDigit_of_mem_toDigits (by decide) (by decide) h

theorem numeral_showNat (n : ℕ) : Numeral (showNat n) n :=
  ⟨Nat.toDigits_ne_nil, fun _ hc => isDigit_of_mem_showNat hc, Nat.ofDigitChars_ten_toDigits⟩

theorem Numeral.unique {cs : List Char} {n n' : ℕ} (h : Numeral cs n) (h' : Numeral cs n') :
    n = n' :=
  h.2.2.symm.trans h'.2.2

theorem takeWhile_noDigit {cs : List Char} (h : NoDigit cs) : cs.takeWhile Char.isDigit = [] := by
  cases cs with
  | nil => rfl
  | cons c cs => simp [h c rfl]

theorem noDigit_dropWhile (cs : List Char) : NoDigit (cs.dropWhile Char.isDigit) := by
  intro c hc
  have hne : cs.dropWhile Char.isDigit ≠ [] := by
    intro hnil
    rw [hnil] at hc
    cases hc
  have hhead := List.head_dropWhile_not Char.isDigit hne
  rwa [Option.some.inj ((List.head?_eq_some_head hne).symm.trans hc)] at hhead

theorem span_numeral {ds rest : List Char} {n : ℕ} (hn : Numeral ds n) (h : NoDigit rest) :
    (ds ++ rest).takeWhile Char.isDigit = ds ∧ (ds ++ rest).dropWhile Char.isDigit = rest := by
  constructor
  · rw [List.takeWhile_append_of_pos hn.2.1, takeWhile_noDigit h, List.append_nil]
  · rw [List.dropWhile_append_of_pos hn.2.1]
    cases rest with
    | nil => rfl
    | cons c cs => simp [h c rfl]

theorem digits_numeral {ds rest : List Char} {n : ℕ} (hn : Numeral ds n) (h : NoDigit rest) :
    digits (ds ++ rest) = some (n, rest) := by
  obtain ⟨htake, hdrop⟩ := span_numeral hn h
  simp only [digits, htake, hdrop, if_neg hn.1, hn.2.2]

theorem sign_skipws_numeral {ds : List Char} {n : ℕ} (hn : Numeral ds n) (rest : List Char) :
    sign (skipws (ds ++ rest)) = (false, ds ++ rest) := by
  obtain ⟨hne, hall, -⟩ := hn
  obtain ⟨c, cs, rfl⟩ := List.exists_cons_of_ne_nil hne
  have hc := hall c List.mem_cons_self
  rw [List.cons_append, skipws_cons _ (isSpace_of_isDigit hc)]
  unfold sign
  split
  · next heq =>
    obtain ⟨rfl, -⟩ := List.cons.inj heq
    cases hc
  · next heq =>
    obtain ⟨rfl, -⟩ := List.cons.inj heq
    cases hc
  · rfl

theorem digits_showNat (n : ℕ) {rest : List Char} (h : NoDigit rest) :
    digits (showNat n ++ rest) = some (n, rest) :=
  digits_numeral (numeral_showNat n) h

theorem sign_skipws_showNat (n : ℕ) (rest : List Char) :
    sign (skipws (showNat n ++ rest)) = (false, showNat n ++ rest) :=
  sign_skipws_numeral (numeral_showNat n) rest

theorem strtoul_numeral {w : ℕ} {cs : List Char} {n : ℕ} (hn : Numeral cs n) :
    strtoul w cs = if n < 2 ^ w then BitVec.ofNat w n else BitVec.allOnes w := by
  have hsign := sign_skipws_numeral hn []
  have hdigits := digits_numeral hn noDigit_nil
  rw [List.append_nil] at hsign hdigits
  simp only [strtoul, hsign, hdigits, Bool.false_eq_true, if_false]

/-! ## Numbers -/

theorem unsigned_showNat {w : ℕ} (x : BitVec w) {rest : List Char} (h : NoDigit rest) :
    unsigned w (showNat x.toNat ++ rest) = some (x, rest) := by
  simp only [unsigned, sign_skipws_showNat, digits_showNat x.toNat h, if_pos x.isLt,
    Bool.false_eq_true, if_false, BitVec.ofNat_toNat, BitVec.setWidth_eq]

theorem signed_showInt {w : ℕ} (x : BitVec w) {rest : List Char} (h : NoDigit rest) :
    signed w (showInt x.toInt ++ rest) = some (x, rest) := by
  have hle : -2 ^ (w - 1) ≤ x.toInt := BitVec.le_toInt x
  have hlt : x.toInt < 2 ^ (w - 1) := BitVec.toInt_lt
  unfold showInt
  split_ifs with hneg
  · have hskip : sign (skipws ('-' :: (showNat x.toInt.natAbs ++ rest))) =
        (true, showNat x.toInt.natAbs ++ rest) := by
      rw [skipws_cons _ (by decide)]
      rfl
    have habs : -(x.toInt.natAbs : ℤ) = x.toInt := by omega
    simp only [signed, List.cons_append, hskip, digits_showNat _ h, if_true, habs]
    rw [if_pos ⟨hle, hlt⟩, BitVec.ofInt_toInt]
  · have habs : (x.toInt.natAbs : ℤ) = x.toInt := by omega
    simp only [signed, sign_skipws_showNat, digits_showNat _ h, Bool.false_eq_true, if_false, habs]
    rw [if_pos ⟨hle, hlt⟩, BitVec.ofInt_toInt]

/-! ## Lines -/

theorem lines_cons_of_ne {c : Char} (cs : List Char) (h : c ≠ '\n') :
    lines (c :: cs) =
      match lines cs with
      | [] => [[c]]
      | l :: ls => (c :: l) :: ls := by
  rw [lines, if_neg h]

theorem lines_eq_getline (cs : List Char) :
    lines cs =
      match getline cs with
      | none => []
      | some (l, rest) => l :: lines rest := by
  induction cs with
  | nil => rfl
  | cons c cs ih =>
    by_cases hc : c = '\n'
    · subst hc
      simp [lines, getline]
    · rw [lines_cons_of_ne cs hc, ih]
      by_cases hcs : cs = []
      · subst hcs
        simp [getline, hc, lines]
      · simp [getline, hc, hcs]

theorem lines_append {l : List Char} (h : '\n' ∉ l) (cs : List Char) :
    lines (l ++ '\n' :: cs) = l :: lines cs := by
  induction l with
  | nil => simp [lines]
  | cons c l ih =>
    rw [List.mem_cons, not_or] at h
    rw [List.cons_append, lines_cons_of_ne _ (Ne.symm h.1), ih h.2]

/-- Lines that are each ended by a newline are read back one by one. -/
theorem lines_flatMap {ls : List (List Char)} (h : ∀ l ∈ ls, '\n' ∉ l) :
    lines (ls.flatMap (fun l => l ++ ['\n'])) = ls := by
  induction ls with
  | nil => rfl
  | cons l ls ih =>
    rw [List.flatMap_cons, List.append_assoc, List.singleton_append,
      lines_append (h l List.mem_cons_self), ih (fun l' hl => h l' (List.mem_cons_of_mem _ hl))]

theorem newline_notMem_showNat (n : ℕ) : '\n' ∉ showNat n := by
  intro h
  have hdigit := isDigit_of_mem_showNat h
  revert hdigit
  decide

theorem newline_notMem_showInt (z : ℤ) : '\n' ∉ showInt z := by
  unfold showInt
  split_ifs
  · rw [List.mem_cons, not_or]
    exact ⟨by decide, newline_notMem_showNat _⟩
  · exact newline_notMem_showNat _

end Formatted
