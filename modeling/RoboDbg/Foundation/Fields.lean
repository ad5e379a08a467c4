import RoboDbg.Foundation.Formatted

/-!
# What an extraction accepts

An extraction of a number takes more than the number from the text: white space in front
and a sign. `Field` is the part of the text that it takes, and `Cell` is a field with the
separator that is extracted behind it, again with the white space in front of that. A text
has one field at its head at most, and one cell.
-/

namespace Formatted

variable {α β : Type*} {w : ℕ}

def Blank (cs : List Char) : Prop := ∀ c ∈ cs, isSpace c = true

theorem blank_nil : Blank [] := by
  intro c hc
  cases hc

theorem skipws_append {bs : List Char} (hbs : Blank bs) (cs : List Char) :
    skipws (bs ++ cs) = skipws cs :=
  List.dropWhile_append_of_pos hbs

theorem takeWhile_isSpace_append {bs : List Char} (hbs : Blank bs) {c : Char}
    (hc : isSpace c = false) (cs : List Char) : (bs ++ c :: cs).takeWhile isSpace = bs := by
  rw [List.takeWhile_append_of_pos hbs, List.takeWhile_cons, hc]
  simp

theorem blank_append_skipws (cs : List Char) :
    Blank (cs.takeWhile isSpace) ∧ cs = cs.takeWhile isSpace ++ skipws cs :=
  ⟨fun _ hc => List.mem_takeWhile_imp hc, List.takeWhile_append_dropWhile.symm⟩

theorem isSpace_of_skipws {c : Char} {cs rest : List Char} (h : skipws cs = c :: rest) :
    isSpace c = false := by
  have hne : cs.dropWhile isSpace ≠ [] := by
    unfold skipws at h
    rw [h]
    exact List.cons_ne_nil c rest
  have hhead := List.head_dropWhile_not isSpace hne
  unfold skipws at h
  simpa only [h, List.head_cons] using hhead

/-! ## Fields -/

structure Field where
  blanks : List Char
  sign : List Char
  digits : List Char

namespace Field

variable {f f' : Field} {rest rest' : List Char}

def text (f : Field) : List Char := f.blanks ++ (f.sign ++ f.digits)

def value (f : Field) : ℕ := Nat.ofDigitChars 10 f.digits 0

def negative (f : Field) : Bool := f.sign = ['-']

structure Valid (f : Field) : Prop where
  blanks : Blank f.blanks
  sign : f.sign = [] ∨ f.sign = ['+'] ∨ f.sign = ['-']
  digits : Numeral f.digits f.value

def unsigned (w : ℕ) (f : Field) : BitVec w :=
  if f.negative then -BitVec.ofNat w f.value else BitVec.ofNat w f.value

def signed (f : Field) : ℤ := if f.negative then -f.value else f.value

def scanSign : List Char → List Char × List Char
  | '-' :: cs => (['-'], cs)
  | '+' :: cs => (['+'], cs)
  | cs => ([], cs)

def scan (cs : List Char) : Field × List Char :=
  let r := scanSign (skipws cs)
  (⟨cs.takeWhile isSpace, r.1, r.2.takeWhile Char.isDigit⟩, r.2.dropWhile Char.isDigit)

theorem scanSign_spec (cs : List Char) :
    cs = (scanSign cs).1 ++ (scanSign cs).2 ∧
      ((scanSign cs).1 = [] ∨ (scanSign cs).1 = ['+'] ∨ (scanSign cs).1 = ['-']) ∧
      Formatted.sign cs = (decide ((scanSign cs).1 = ['-']), (scanSign cs).2) := by
  unfold scanSign
  split
  · exact ⟨rfl, by simp, rfl⟩
  · exact ⟨rfl, by simp, rfl⟩
  · next hminus hplus =>
    refine ⟨rfl, by simp, ?_⟩
    unfold Formatted.sign
    split
    · exact absurd rfl (hminus _)
    · exact absurd rfl (hplus _)
    · rfl

theorem scanSign_digit {c : Char} (hc : c.isDigit = true) (cs : List Char) :
    scanSign (c :: cs) = ([], c :: cs) := by
  unfold scanSign
  split
  · next heq =>
    obtain ⟨rfl, -⟩ := List.cons.inj heq
    cases hc
  · next heq =>
    obtain ⟨rfl, -⟩ := List.cons.inj heq
    cases hc
  · rfl

theorem Valid.head (h : f.Valid) (rest : List Char) :
    ∃ c cs, f.sign ++ f.digits ++ rest = c :: cs ∧ isSpace c = false ∧
      scanSign (c :: cs) = (f.sign, f.digits ++ rest) := by
  obtain ⟨hne, hall, -⟩ := h.digits
  obtain ⟨d, ds, hds⟩ := List.exists_cons_of_ne_nil hne
  have hd : d.isDigit = true := hall d (hds ▸ List.mem_cons_self)
  rcases h.sign with hs | hs | hs
  · rw [hs, hds]
    exact ⟨d, ds ++ rest, rfl, isSpace_of_isDigit hd, scanSign_digit hd _⟩
  · rw [hs]
    exact ⟨'+', f.digits ++ rest, rfl, by decide, rfl⟩
  · rw [hs]
    exact ⟨'-', f.digits ++ rest, rfl, by decide, rfl⟩

theorem scan_text (h : f.Valid) (hrest : NoDigit rest) : scan (f.text ++ rest) = (f, rest) := by
  obtain ⟨c, cs, hhead, hc, hsign⟩ := h.head rest
  have htext : f.text ++ rest = f.blanks ++ c :: cs := by
    rw [text, List.append_assoc, hhead]
  have hskip : skipws (f.text ++ rest) = c :: cs := by
    rw [htext, skipws_append h.blanks, skipws_cons cs hc]
  obtain ⟨htake, hdrop⟩ := span_numeral h.digits hrest
  rw [scan, hskip, hsign, htext, takeWhile_isSpace_append h.blanks hc]
  simp only [htake, hdrop]

theorem text_inj (h : f.Valid) (h' : f'.Valid) (hrest : NoDigit rest) (hrest' : NoDigit rest')
    (htext : f.text ++ rest = f'.text ++ rest') : f = f' ∧ rest = rest' := by
  have hscan := scan_text h hrest
  rw [htext, scan_text h' hrest'] at hscan
  exact ⟨(congrArg Prod.fst hscan).symm, (congrArg Prod.snd hscan).symm⟩

theorem scan_spec (cs : List Char) :
    cs = (scan cs).1.text ++ (scan cs).2 ∧ NoDigit (scan cs).2 ∧
      ((scan cs).1.digits ≠ [] → (scan cs).1.Valid) ∧
      Formatted.sign (skipws cs) =
        ((scan cs).1.negative, (scan cs).1.digits ++ (scan cs).2) := by
  obtain ⟨hblank, hcs⟩ := blank_append_skipws cs
  obtain ⟨hsplit, hsign, hminus⟩ := scanSign_spec (skipws cs)
  have hdigits : (scan cs).1.digits ++ (scan cs).2 = (scanSign (skipws cs)).2 :=
    List.takeWhile_append_dropWhile
  refine ⟨?_, noDigit_dropWhile _, fun hne => ⟨hblank, hsign, hne, ?_, rfl⟩, ?_⟩
  · rw [text, List.append_assoc, List.append_assoc, hdigits]
    exact hcs.trans (congrArg (List.append _) hsplit)
  · intro c hc
    exact List.mem_takeWhile_imp hc
  · rw [hdigits]
    exact hminus

end Field

/-! ## Extractions -/

/-- The extraction takes a field for which `ok` holds, and gives the value `val` of it. -/
def Reads (p : Extract α) (ok : Field → Prop) (val : Field → α) : Prop :=
  ∀ cs x rest, p cs = some (x, rest) ↔
    ∃ f : Field, f.Valid ∧ NoDigit rest ∧ ok f ∧ val f = x ∧ f.text ++ rest = cs

theorem reads_of_digits {p : Extract α} {ok : Field → Prop} [DecidablePred ok] {val : Field → α}
    (hnone : ∀ cs, (Field.scan cs).1.digits = [] → p cs = none)
    (hsome : ∀ cs, (Field.scan cs).1.digits ≠ [] →
      p cs = if ok (Field.scan cs).1 then some (val (Field.scan cs).1, (Field.scan cs).2)
        else none) : Reads p ok val := by
  intro cs x rest
  obtain ⟨htext, hrest, hvalid, -⟩ := Field.scan_spec cs
  constructor
  · intro h
    by_cases hne : (Field.scan cs).1.digits = []
    · rw [hnone cs hne] at h
      cases h
    · rw [hsome cs hne] at h
      split_ifs at h with hok
      obtain ⟨rfl, rfl⟩ := Prod.mk.inj (Option.some.inj h)
      exact ⟨_, hvalid hne, hrest, hok, rfl, htext.symm⟩
  · rintro ⟨f, hf, hrest', hok, rfl, rfl⟩
    have hscan := Field.scan_text hf hrest'
    have hne : (Field.scan (f.text ++ rest)).1.digits ≠ [] := by
      rw [hscan]
      exact hf.digits.1
    rw [hsome _ hne, hscan, if_pos hok]

theorem digits_scan (cs : List Char) :
    digits ((Field.scan cs).1.digits ++ (Field.scan cs).2) =
      if (Field.scan cs).1.digits = [] then none
      else some ((Field.scan cs).1.value, (Field.scan cs).2) := by
  obtain ⟨-, hrest, hvalid, -⟩ := Field.scan_spec cs
  by_cases hne : (Field.scan cs).1.digits = []
  · have htake : (Field.scan cs).2.takeWhile Char.isDigit = [] := takeWhile_noDigit hrest
    rw [if_pos hne, hne, List.nil_append, digits, htake]
    rfl
  · rw [if_neg hne]
    exact digits_numeral (hvalid hne).digits hrest

theorem reads_unsigned (w : ℕ) :
    Reads (unsigned w) (fun f => f.value < 2 ^ w) (fun f => f.unsigned w) := by
  apply reads_of_digits
  · intro cs hne
    obtain ⟨-, -, -, hsign⟩ := Field.scan_spec cs
    simp only [unsigned, hsign, digits_scan, if_pos hne]
  · intro cs hne
    obtain ⟨-, -, -, hsign⟩ := Field.scan_spec cs
    simp only [unsigned, hsign, digits_scan, if_neg hne]
    rfl

theorem reads_signed (w : ℕ) :
    Reads (signed w) (fun f => -2 ^ (w - 1) ≤ f.signed ∧ f.signed < 2 ^ (w - 1))
      (fun f => BitVec.ofInt w f.signed) := by
  apply reads_of_digits
  · intro cs hne
    obtain ⟨-, -, -, hsign⟩ := Field.scan_spec cs
    simp only [signed, hsign, digits_scan, if_pos hne]
  · intro cs hne
    obtain ⟨-, -, -, hsign⟩ := Field.scan_spec cs
    simp only [signed, hsign, digits_scan, if_neg hne]
    rfl

theorem char_eq_some {cs rest : List Char} {c : Char} :
    char cs = some (c, rest) ↔
      ∃ bs, Blank bs ∧ isSpace c = false ∧ bs ++ c :: rest = cs := by
  constructor
  · intro h
    obtain ⟨hblank, hcs⟩ := blank_append_skipws cs
    unfold char at h
    split at h
    · cases h
    · next c' cs' hskip =>
      obtain ⟨rfl, rfl⟩ := Prod.mk.inj (Option.some.inj h)
      rw [hskip] at hcs
      exact ⟨_, hblank, isSpace_of_skipws hskip, hcs.symm⟩
  · rintro ⟨bs, hbs, hc, rfl⟩
    simp only [char, skipws_append hbs, skipws_cons rest hc]

/-! ## Cells -/

structure Cell where
  field : Field
  blanks : List Char
  separator : Char

namespace Cell

variable {c c' : Cell} {rest rest' : List Char}

def text (c : Cell) : List Char := c.field.text ++ (c.blanks ++ [c.separator])

structure Valid (c : Cell) : Prop where
  field : c.field.Valid
  blanks : Blank c.blanks
  separator : isSpace c.separator = false
  noDigit : NoDigit (c.blanks ++ [c.separator])

theorem text_append (c : Cell) (rest : List Char) :
    c.text ++ rest = c.field.text ++ (c.blanks ++ c.separator :: rest) := by
  simp only [text, List.append_assoc, List.singleton_append]

theorem Valid.noDigit_append (h : c.Valid) (rest : List Char) :
    NoDigit (c.blanks ++ c.separator :: rest) := by
  have hhead := h.noDigit
  cases hb : c.blanks with
  | nil =>
    rw [hb] at hhead
    exact noDigit_cons _ (hhead _ rfl)
  | cons x xs =>
    rw [hb] at hhead
    exact noDigit_cons _ (hhead _ rfl)

theorem text_inj (h : c.Valid) (h' : c'.Valid) (htext : c.text ++ rest = c'.text ++ rest') :
    c = c' ∧ rest = rest' := by
  rw [text_append, text_append] at htext
  obtain ⟨hfield, hsep⟩ :=
    Field.text_inj h.field h'.field (h.noDigit_append rest) (h'.noDigit_append rest') htext
  have hblanks := congrArg (List.takeWhile isSpace) hsep
  rw [takeWhile_isSpace_append h.blanks h.separator,
    takeWhile_isSpace_append h'.blanks h'.separator] at hblanks
  rw [hblanks] at hsep
  obtain ⟨hchar, hrest⟩ := List.cons.inj (List.append_cancel_left hsep)
  obtain ⟨field, blanks, separator⟩ := c
  obtain ⟨field', blanks', separator'⟩ := c'
  subst hfield hblanks hchar
  exact ⟨rfl, hrest⟩

end Cell

def andThen (p : Extract α) (k : α → List Char → Option β) (cs : List Char) : Option β :=
  (p cs).bind (fun r => (char r.2).bind (fun s => k r.1 s.2))

theorem Reads.andThen_eq_some {p : Extract α} {ok : Field → Prop} {val : Field → α}
    (hp : Reads p ok val) {k : α → List Char → Option β} {cs : List Char} {y : β} :
    andThen p k cs = some y ↔
      ∃ (c : Cell) (rest : List Char), c.Valid ∧ ok c.field ∧ c.text ++ rest = cs ∧
        k (val c.field) rest = some y := by
  simp only [andThen, Option.bind_eq_some_iff, Prod.exists]
  constructor
  · rintro ⟨x, ss, hx, sep, rest, hsep, hk⟩
    obtain ⟨f, hf, hno, hok, rfl, rfl⟩ := (hp _ _ _).mp hx
    obtain ⟨bs, hbs, hs, rfl⟩ := char_eq_some.mp hsep
    refine ⟨⟨f, bs, sep⟩, rest, ⟨hf, hbs, hs, ?_⟩, hok, Cell.text_append _ _, hk⟩
    cases bs with
    | nil => exact noDigit_cons _ (hno _ rfl)
    | cons b bs => exact noDigit_cons _ (hno _ rfl)
  · rintro ⟨c, rest, hc, hok, rfl, hk⟩
    refine ⟨_, _, (hp _ _ _).mpr ⟨c.field, hc.field, hc.noDigit_append rest, hok, rfl,
      (Cell.text_append c rest).symm⟩, c.separator, rest, ?_, hk⟩
    exact char_eq_some.mpr ⟨c.blanks, hc.blanks, hc.separator, rfl⟩

def andStop (p : Extract α) (k : α → β) (cs : List Char) : Option β :=
  (p cs).bind (fun r => some (k r.1))

theorem Reads.andStop_eq_some {p : Extract α} {ok : Field → Prop} {val : Field → α}
    (hp : Reads p ok val) {k : α → β} {cs : List Char} {y : β} :
    andStop p k cs = some y ↔
      ∃ (f : Field) (rest : List Char), f.Valid ∧ NoDigit rest ∧ ok f ∧ f.text ++ rest = cs ∧
        k (val f) = y := by
  simp only [andStop, Option.bind_eq_some_iff, Prod.exists, Option.some.injEq]
  constructor
  · rintro ⟨x, rest, hx, rfl⟩
    obtain ⟨f, hf, hrest, hok, rfl, rfl⟩ := (hp _ _ _).mp hx
    exact ⟨f, rest, hf, hrest, hok, rfl, rfl⟩
  · rintro ⟨f, rest, hf, hrest, hok, rfl, rfl⟩
    exact ⟨_, rest, (hp _ _ _).mpr ⟨f, hf, hrest, hok, rfl, rfl⟩, rfl⟩

/-! ## Two ways to read lines -/

section FilterMap

variable {f g : α → Option β} {l : List α}

theorem length_filterMap_le (h : ∀ x ∈ l, ∀ y, g x = some y → f x = some y) :
    (l.filterMap g).length ≤ (l.filterMap f).length := by
  induction l with
  | nil => exact le_rfl
  | cons x l ih =>
    have ih' := ih (fun z hz => h z (List.mem_cons_of_mem _ hz))
    cases hg : g x with
    | none =>
      rw [List.filterMap_cons_none hg, List.filterMap_cons]
      cases f x with
      | none => exact ih'
      | some y => exact Nat.le_succ_of_le ih'
    | some y =>
      rw [List.filterMap_cons_some hg, List.filterMap_cons_some (h x List.mem_cons_self y hg)]
      exact Nat.succ_le_succ ih'

/-- A reading that accepts more lines gives the same list only if it reads every line as the
other one does. -/
theorem filterMap_eq_iff (h : ∀ x ∈ l, ∀ y, g x = some y → f x = some y) :
    l.filterMap f = l.filterMap g ↔ ∀ x ∈ l, f x = g x := by
  refine ⟨fun heq => ?_, List.filterMap_congr⟩
  induction l with
  | nil =>
    intro x hx
    cases hx
  | cons x l ih =>
    have hl := fun z hz => h z (List.mem_cons_of_mem x hz)
    cases hg : g x with
    | some y =>
      have hf := h x List.mem_cons_self y hg
      rw [List.filterMap_cons_some hg, List.filterMap_cons_some hf] at heq
      exact List.forall_mem_cons.mpr ⟨hf.trans hg.symm, ih hl (List.cons.inj heq).2⟩
    | none =>
      cases hf : f x with
      | none =>
        rw [List.filterMap_cons_none hg, List.filterMap_cons_none hf] at heq
        exact List.forall_mem_cons.mpr ⟨hf.trans hg.symm, ih hl heq⟩
      | some y =>
        rw [List.filterMap_cons_none hg, List.filterMap_cons_some hf] at heq
        have hle := length_filterMap_le hl
        rw [← heq, List.length_cons] at hle
        omega

end FilterMap

end Formatted
