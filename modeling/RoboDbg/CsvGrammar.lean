import RoboDbg.Foundation.Fields
import RoboDbg.FreezerCsv

/-!
# The lines that an import accepts

`exportAsCSV` writes lines of one shape. The extraction that `importFromCSV` uses accepts
these and more: white space in front of what it extracts, any separators, signs, any
number for a flag, a mask that is too wide, and whatever follows the last field.
-/

namespace RoboDbg

open Formatted

variable {b : Build}

/-! ## The exported lines -/

def SignedDecimal (cs : List Char) (z : ℤ) : Prop :=
  ∃ n : ℕ, (Numeral cs n ∧ z = n) ∨ ∃ ds, cs = '-' :: ds ∧ Numeral ds n ∧ z = -n

def Flag (cs : List Char) (c : Bool) : Prop := (cs = ['0'] ∧ c = false) ∨ (cs = ['1'] ∧ c = true)

/-- Seven fields with single commas between them, and the state with these values. -/
def ExportedLine (line : List Char) (st : ThreadState b) : Prop :=
  ∃ tid prevSuspendCount priority boostDisabled group mask weSuspended : List Char,
    line = tid ++ ',' :: (prevSuspendCount ++ ',' :: (priority ++ ',' :: (boostDisabled ++ ',' ::
      (group ++ ',' :: (mask ++ ',' :: weSuspended))))) ∧
    Numeral tid st.tid.toNat ∧ Numeral prevSuspendCount st.prevSuspendCount.toNat ∧
    SignedDecimal priority st.dynPriority.toInt ∧
    (∃ c, Flag boostDisabled c ∧ st.boostDisabled = if c then 1 else 0) ∧
    Numeral group st.groupAffinity.Group.toNat ∧ Numeral mask st.groupAffinity.Mask.toNat ∧
    st.groupAffinity.Reserved = (0, 0, 0) ∧ Flag weSuspended st.weSuspended

open Classical in
noncomputable def exportedState (line : List Char) : Option (ThreadState b) :=
  if h : ∃ st, ExportedLine line st then some h.choose else none

/-! ## The accepted lines -/

/-- A line as the extraction takes it apart. -/
structure CsvRow where
  tid : Cell
  prevSuspendCount : Cell
  priority : Cell
  boostDisabled : Cell
  group : Cell
  mask : Cell
  weSuspended : Field
  /-- What follows the last field and is not looked at. -/
  rest : List Char

namespace CsvRow

def cells (r : CsvRow) : List Cell :=
  [r.tid, r.prevSuspendCount, r.priority, r.boostDisabled, r.group, r.mask]

def text (r : CsvRow) : List Char :=
  r.tid.text ++ (r.prevSuspendCount.text ++ (r.priority.text ++ (r.boostDisabled.text ++
    (r.group.text ++ (r.mask.text ++ (r.weSuspended.text ++ r.rest))))))

def IntRange (f : Field) : Prop := -2 ^ 31 ≤ f.signed ∧ f.signed < 2 ^ 31

/-- The shape that the extraction accepts, with numbers that fit into its variables. -/
structure Accepted (r : CsvRow) : Prop where
  cells : ∀ c ∈ r.cells, c.Valid
  weSuspended : r.weSuspended.Valid
  rest : NoDigit r.rest
  tid_lt : r.tid.field.value < 2 ^ 32
  prevSuspendCount_lt : r.prevSuspendCount.field.value < 2 ^ 32
  priority_range : IntRange r.priority.field
  boostDisabled_range : IntRange r.boostDisabled.field
  group_lt : r.group.field.value < 2 ^ 16
  mask_lt : r.mask.field.value < 2 ^ 64
  weSuspended_range : IntRange r.weSuspended

def Unsigned (f : Field) : Prop := f.blanks = [] ∧ f.sign = []

/-- No white space, commas as separators, no sign but the minus of the priority, `0` or `1`
for the flags, a mask of the width of the build and nothing behind the last field. -/
structure Plain (b : Build) (r : CsvRow) : Prop where
  blanks : ∀ c ∈ r.cells, c.field.blanks = [] ∧ c.blanks = []
  separator : ∀ c ∈ r.cells, c.separator = ','
  sign : ∀ c ∈ [r.tid, r.prevSuspendCount, r.boostDisabled, r.group, r.mask], c.field.sign = []
  priority : r.priority.field.sign ≠ ['+']
  boostDisabled : r.boostDisabled.field.digits = ['0'] ∨ r.boostDisabled.field.digits = ['1']
  mask : r.mask.field.value < 2 ^ b.bits
  weSuspended : Unsigned r.weSuspended
  weSuspended_flag : r.weSuspended.digits = ['0'] ∨ r.weSuspended.digits = ['1']
  rest : r.rest = []

def state (b : Build) (r : CsvRow) : ThreadState b where
  tid := r.tid.field.unsigned 32
  prevSuspendCount := r.prevSuspendCount.field.unsigned 32
  dynPriority := BitVec.ofInt 32 r.priority.field.signed
  boostDisabled := if BitVec.ofInt 32 r.boostDisabled.field.signed ≠ 0 then 1 else 0
  groupAffinity := ⟨(r.mask.field.unsigned 64).setWidth b.bits, r.group.field.unsigned 16, 0, 0, 0⟩
  weSuspended := BitVec.ofInt 32 r.weSuspended.signed ≠ 0

theorem forall_cells {p : Cell → Prop} {r : CsvRow} :
    (∀ c ∈ r.cells, p c) ↔ p r.tid ∧ p r.prevSuspendCount ∧ p r.priority ∧ p r.boostDisabled ∧
      p r.group ∧ p r.mask := by
  simp [cells]

theorem text_inj {r r' : CsvRow} (h : r.Accepted) (h' : r'.Accepted) (htext : r.text = r'.text) :
    r = r' := by
  obtain ⟨h₁, h₂, h₃, h₄, h₅, h₆⟩ := forall_cells.mp h.cells
  obtain ⟨h₁', h₂', h₃', h₄', h₅', h₆'⟩ := forall_cells.mp h'.cells
  obtain ⟨e₁, htext⟩ := Cell.text_inj h₁ h₁' htext
  obtain ⟨e₂, htext⟩ := Cell.text_inj h₂ h₂' htext
  obtain ⟨e₃, htext⟩ := Cell.text_inj h₃ h₃' htext
  obtain ⟨e₄, htext⟩ := Cell.text_inj h₄ h₄' htext
  obtain ⟨e₅, htext⟩ := Cell.text_inj h₅ h₅' htext
  obtain ⟨e₆, htext⟩ := Cell.text_inj h₆ h₆' htext
  obtain ⟨e₇, e₈⟩ := Field.text_inj h.weSuspended h'.weSuspended h.rest h'.rest htext
  cases r
  cases r'
  simp only at e₁ e₂ e₃ e₄ e₅ e₆ e₇ e₈
  rw [e₁, e₂, e₃, e₄, e₅, e₆, e₇, e₈]

end CsvRow

theorem csvState_eq (line : List Char) : (csvState line : Option (ThreadState b)) =
    andThen (unsigned 32) (fun tid => andThen (unsigned 32) (fun prevSuspendCount =>
      andThen (signed 32) (fun dynPriority => andThen (signed 32) (fun boost =>
        andThen (unsigned 16) (fun group => andThen (unsigned 64) (fun mask =>
          andStop (signed 32) (fun suspended => {
            tid := tid
            prevSuspendCount := prevSuspendCount
            dynPriority := dynPriority
            boostDisabled := if boost ≠ 0 then 1 else 0
            groupAffinity := ⟨mask.setWidth b.bits, group, 0, 0, 0⟩
            weSuspended := suspended ≠ 0 }))))))) line := rfl

theorem csvState_eq_some {line : List Char} {st : ThreadState b} :
    csvState line = some st ↔ ∃ r : CsvRow, r.Accepted ∧ r.text = line ∧ r.state b = st := by
  rw [csvState_eq, (reads_unsigned 32).andThen_eq_some]
  simp only [(reads_unsigned 32).andThen_eq_some, (reads_signed 32).andThen_eq_some,
    (reads_unsigned 16).andThen_eq_some, (reads_unsigned 64).andThen_eq_some,
    (reads_signed 32).andStop_eq_some]
  constructor
  · rintro ⟨c₁, _, h₁, k₁, rfl, c₂, _, h₂, k₂, rfl, c₃, _, h₃, k₃, rfl, c₄, _, h₄, k₄, rfl,
      c₅, _, h₅, k₅, rfl, c₆, _, h₆, k₆, rfl, f, rest, hf, hrest, k₇, rfl, rfl⟩
    refine ⟨⟨c₁, c₂, c₃, c₄, c₅, c₆, f, rest⟩,
      ⟨?_, hf, hrest, k₁, k₂, k₃, k₄, k₅, k₆, k₇⟩, rfl, rfl⟩
    exact CsvRow.forall_cells.mpr ⟨h₁, h₂, h₃, h₄, h₅, h₆⟩
  · rintro ⟨r, h, rfl, rfl⟩
    obtain ⟨h₁, h₂, h₃, h₄, h₅, h₆⟩ := CsvRow.forall_cells.mp h.cells
    exact ⟨r.tid, _, h₁, h.tid_lt, rfl, r.prevSuspendCount, _, h₂, h.prevSuspendCount_lt, rfl,
      r.priority, _, h₃, h.priority_range, rfl, r.boostDisabled, _, h₄, h.boostDisabled_range, rfl,
      r.group, _, h₅, h.group_lt, rfl, r.mask, _, h₆, h.mask_lt, rfl,
      r.weSuspended, r.rest, h.weSuspended, h.rest, h.weSuspended_range, rfl, rfl⟩

/-! ## Where the two agree -/

theorem setWidth_ofNat_mask (x : DWORD_PTR b) : (BitVec.ofNat 64 x.toNat).setWidth b.bits = x := by
  rw [BitVec.ofNat_toNat]
  exact setWidth_setWidth_mask x

def bareField (digits : List Char) : Field := ⟨[], [], digits⟩

def commaCell (f : Field) : Cell := ⟨f, [], ','⟩

theorem bareField_valid {cs : List Char} {n : ℕ} (h : Numeral cs n) : (bareField cs).Valid :=
  ⟨blank_nil, Or.inl rfl, h.1, h.2.1, rfl⟩

theorem bareField_value {cs : List Char} {n : ℕ} (h : Numeral cs n) : (bareField cs).value = n :=
  h.2.2

theorem bareField_unsigned {w : ℕ} {cs : List Char} {x : BitVec w} (h : Numeral cs x.toNat) :
    (bareField cs).unsigned w = x := by
  rw [Field.unsigned, bareField_value h, BitVec.ofNat_toNat, BitVec.setWidth_eq]
  rfl

theorem bareField_signed {cs : List Char} {n : ℕ} (h : Numeral cs n) :
    (bareField cs).signed = n :=
  congrArg Nat.cast (bareField_value h)

theorem commaCell_valid {f : Field} (h : f.Valid) : (commaCell f).Valid :=
  ⟨h, blank_nil, rfl, noDigit_comma []⟩

theorem Flag.numeral {cs : List Char} {c : Bool} (h : Flag cs c) :
    Numeral cs (if c then 1 else 0) := by
  rcases h with ⟨rfl, rfl⟩ | ⟨rfl, rfl⟩
  · exact ⟨List.cons_ne_nil _ _, List.forall_mem_singleton.mpr rfl, rfl⟩
  · exact ⟨List.cons_ne_nil _ _, List.forall_mem_singleton.mpr rfl, rfl⟩

theorem SignedDecimal.field {cs : List Char} {z : ℤ} (h : SignedDecimal cs z) :
    ∃ f : Field, f.Valid ∧ f.blanks = [] ∧ f.sign ≠ ['+'] ∧ f.text = cs ∧ f.signed = z := by
  obtain ⟨n, ⟨hn, rfl⟩ | ⟨ds, rfl, hn, rfl⟩⟩ := h
  · exact ⟨bareField cs, bareField_valid hn, rfl, by simp [bareField], rfl, bareField_signed hn⟩
  · refine ⟨⟨[], ['-'], ds⟩, ⟨blank_nil, Or.inr (Or.inr rfl), hn.1, hn.2.1, rfl⟩, rfl, by simp, rfl,
      ?_⟩
    exact congrArg (fun n : ℕ => -(n : ℤ)) hn.2.2

theorem signedDecimal_of_field {f : Field} (h : f.Valid) (hblanks : f.blanks = [])
    (hsign : f.sign ≠ ['+']) : SignedDecimal f.text f.signed := by
  refine ⟨f.value, ?_⟩
  rcases h.sign with hs | hs | hs
  · refine Or.inl ⟨?_, ?_⟩
    · rw [Field.text, hblanks, hs]
      exact h.digits
    · simp [Field.signed, Field.negative, hs]
  · exact absurd hs hsign
  · refine Or.inr ⟨f.digits, ?_, h.digits, ?_⟩
    · rw [Field.text, hblanks, hs]
      rfl
    · simp [Field.signed, Field.negative, hs]

section Flag

variable {cs : List Char} {c : Bool} (h : Flag cs c)
include h

theorem Flag.intRange : CsvRow.IntRange (bareField cs) := by
  rw [CsvRow.IntRange, bareField_signed h.numeral]
  cases c <;> decide

theorem Flag.ofInt_ne_zero : decide (BitVec.ofInt 32 (bareField cs).signed ≠ 0) = c := by
  rw [bareField_signed h.numeral]
  cases c <;> rfl

theorem Flag.boostDisabled :
    (if BitVec.ofInt 32 (bareField cs).signed ≠ 0 then (1 : BOOL) else 0) = if c then 1 else 0 := by
  rw [bareField_signed h.numeral]
  cases c <;> rfl

end Flag

theorem bareField_mask {cs : List Char} {x : DWORD_PTR b} (h : Numeral cs x.toNat) :
    ((bareField cs).unsigned 64).setWidth b.bits = x := by
  have hvalue : (bareField cs).unsigned 64 = BitVec.ofNat 64 x.toNat := by
    rw [Field.unsigned, bareField_value h]
    rfl
  rw [hvalue, setWidth_ofNat_mask]

theorem two_pow_bits_le (b : Build) : 2 ^ b.bits ≤ 2 ^ 64 := by
  cases b <;> decide

def bareRow (tid prevSuspendCount : List Char) (priority : Field)
    (boostDisabled group mask weSuspended : List Char) : CsvRow :=
  ⟨commaCell (bareField tid), commaCell (bareField prevSuspendCount), commaCell priority,
    commaCell (bareField boostDisabled), commaCell (bareField group), commaCell (bareField mask),
    bareField weSuspended, []⟩

section BareRow

variable {tid prevSuspendCount boostDisabled group mask weSuspended : List Char} {f : Field}
  {st : ThreadState b} {c : Bool}
  (htid : Numeral tid st.tid.toNat) (hprev : Numeral prevSuspendCount st.prevSuspendCount.toNat)
  (hf : f.Valid) (hz : f.signed = st.dynPriority.toInt) (hboost : Flag boostDisabled c)
  (hgroup : Numeral group st.groupAffinity.Group.toNat)
  (hmask : Numeral mask st.groupAffinity.Mask.toNat) (hsuspended : Flag weSuspended st.weSuspended)
include htid hprev hf hz hboost hgroup hmask hsuspended

theorem bareRow_accepted :
    (bareRow tid prevSuspendCount f boostDisabled group mask weSuspended).Accepted where
  cells := CsvRow.forall_cells.mpr ⟨commaCell_valid (bareField_valid htid),
    commaCell_valid (bareField_valid hprev), commaCell_valid hf,
    commaCell_valid (bareField_valid hboost.numeral), commaCell_valid (bareField_valid hgroup),
    commaCell_valid (bareField_valid hmask)⟩
  weSuspended := bareField_valid hsuspended.numeral
  rest := noDigit_nil
  tid_lt := (bareField_value htid).trans_lt st.tid.isLt
  prevSuspendCount_lt := (bareField_value hprev).trans_lt st.prevSuspendCount.isLt
  priority_range := by
    change -2 ^ 31 ≤ f.signed ∧ f.signed < 2 ^ 31
    rw [hz]
    exact ⟨BitVec.le_toInt _, BitVec.toInt_lt⟩
  boostDisabled_range := hboost.intRange
  group_lt := (bareField_value hgroup).trans_lt st.groupAffinity.Group.isLt
  mask_lt := (bareField_value hmask).trans_lt
    (st.groupAffinity.Mask.isLt.trans_le (two_pow_bits_le b))
  weSuspended_range := hsuspended.intRange

omit htid hprev hf hz hgroup in
theorem bareRow_plain (hblanks : f.blanks = []) (hsign : f.sign ≠ ['+']) :
    (bareRow tid prevSuspendCount f boostDisabled group mask weSuspended).Plain b where
  blanks := CsvRow.forall_cells.mpr ⟨⟨rfl, rfl⟩, ⟨rfl, rfl⟩, ⟨hblanks, rfl⟩, ⟨rfl, rfl⟩, ⟨rfl, rfl⟩,
    ⟨rfl, rfl⟩⟩
  separator := CsvRow.forall_cells.mpr ⟨rfl, rfl, rfl, rfl, rfl, rfl⟩
  sign := by simp [bareRow, commaCell, bareField]
  priority := hsign
  boostDisabled := hboost.imp And.left And.left
  mask := (bareField_value hmask).trans_lt st.groupAffinity.Mask.isLt
  weSuspended := ⟨rfl, rfl⟩
  weSuspended_flag := hsuspended.imp And.left And.left
  rest := rfl

omit hf in
theorem bareRow_state (hc : st.boostDisabled = if c then 1 else 0)
    (hreserved : st.groupAffinity.Reserved = (0, 0, 0)) :
    (bareRow tid prevSuspendCount f boostDisabled group mask weSuspended).state b = st := by
  obtain ⟨tid', dynPriority', boostDisabled', ⟨mask', group', reserved'⟩, prev', weSuspended'⟩ := st
  have hpriority : BitVec.ofInt 32 f.signed = dynPriority' := by
    rw [hz, BitVec.ofInt_toInt]
  rw [CsvRow.state, ThreadState.mk.injEq, GroupAffinity.mk.injEq]
  exact ⟨bareField_unsigned htid, hpriority, hboost.boostDisabled.trans hc.symm,
    ⟨bareField_mask hmask, bareField_unsigned hgroup, hreserved.symm⟩, bareField_unsigned hprev,
    hsuspended.ofInt_ne_zero⟩

end BareRow

theorem ExportedLine.row {line : List Char} {st : ThreadState b} (h : ExportedLine line st) :
    ∃ r : CsvRow, r.Accepted ∧ r.Plain b ∧ r.text = line ∧ r.state b = st := by
  obtain ⟨tid, prevSuspendCount, priority, boostDisabled, group, mask, weSuspended, rfl, htid,
    hprev, hpriority, ⟨c, hboost, hc⟩, hgroup, hmask, hreserved, hsuspended⟩ := h
  obtain ⟨f, hf, hblanks, hsign, rfl, hz⟩ := hpriority.field
  refine ⟨bareRow tid prevSuspendCount f boostDisabled group mask weSuspended,
    bareRow_accepted htid hprev hf hz hboost hgroup hmask hsuspended,
    bareRow_plain hboost hmask hsuspended hblanks hsign, ?_,
    bareRow_state htid hprev hz hboost hgroup hmask hsuspended hc hreserved⟩
  simp [CsvRow.text, bareRow, Cell.text, commaCell, bareField, Field.text]

section Bare

variable {f : Field} (hf : f.Valid) (hblanks : f.blanks = []) (hsign : f.sign = [])
include hblanks hsign

theorem bareField_text : bareField f.text = f := by
  obtain ⟨blanks, sign, digits⟩ := f
  dsimp only at hblanks hsign
  rw [hblanks, hsign]
  rfl

include hf in
theorem numeral_text : Numeral f.text f.value := by
  rw [Field.text, hblanks, hsign]
  exact hf.digits

include hf in
theorem toNat_unsigned {w : ℕ} (hlt : f.value < 2 ^ w) : (f.unsigned w).toNat = f.value := by
  have hnum : Numeral f.text (BitVec.ofNat w f.value).toNat := by
    rw [BitVec.toNat_ofNat, Nat.mod_eq_of_lt hlt]
    exact numeral_text hf hblanks hsign
  rw [← bareField_text hblanks hsign, bareField_unsigned hnum, bareField_text hblanks hsign,
    BitVec.toNat_ofNat, Nat.mod_eq_of_lt hlt]

theorem flag_text (hdigits : f.digits = ['0'] ∨ f.digits = ['1']) :
    Flag f.text (BitVec.ofInt 32 f.signed ≠ 0) := by
  have hflag : ∃ c, Flag f.text c := by
    rw [Field.text, hblanks, hsign]
    rcases hdigits with hd | hd
    · exact ⟨false, Or.inl ⟨hd, rfl⟩⟩
    · exact ⟨true, Or.inr ⟨hd, rfl⟩⟩
  obtain ⟨c, hc⟩ := hflag
  have hvalue := hc.ofInt_ne_zero
  rw [bareField_text hblanks hsign] at hvalue
  rwa [hvalue]

end Bare

theorem Cell.text_comma {c : Cell} (hblanks : c.blanks = []) (hseparator : c.separator = ',')
    (rest : List Char) : c.text ++ rest = c.field.text ++ ',' :: rest := by
  rw [Cell.text_append, hblanks, hseparator, List.nil_append]

theorem CsvRow.exportedLine {r : CsvRow} (h : r.Accepted) (hp : r.Plain b) :
    ExportedLine r.text (r.state b) := by
  obtain ⟨h₁, h₂, h₃, h₄, h₅, h₆⟩ := forall_cells.mp h.cells
  obtain ⟨b₁, b₂, b₃, b₄, b₅, b₆⟩ := forall_cells.mp hp.blanks
  obtain ⟨c₁, c₂, c₃, c₄, c₅, c₆⟩ := forall_cells.mp hp.separator
  have hsign := hp.sign
  simp only [List.forall_mem_cons, List.not_mem_nil, false_imp_iff, implies_true, and_true] at hsign
  obtain ⟨s₁, s₂, s₄, s₅, s₆⟩ := hsign
  have hrange := h.priority_range
  refine ⟨r.tid.field.text, r.prevSuspendCount.field.text, r.priority.field.text,
    r.boostDisabled.field.text, r.group.field.text, r.mask.field.text, r.weSuspended.text,
    ?_, ?_, ?_, ?_, ⟨_, flag_text b₄.1 s₄ hp.boostDisabled, ?_⟩, ?_, ?_, rfl, ?_⟩
  · rw [CsvRow.text, Cell.text_comma b₁.2 c₁, Cell.text_comma b₂.2 c₂, Cell.text_comma b₃.2 c₃,
      Cell.text_comma b₄.2 c₄, Cell.text_comma b₅.2 c₅, Cell.text_comma b₆.2 c₆, hp.rest,
      List.append_nil]
  · rw [state, toNat_unsigned h₁.field b₁.1 s₁ h.tid_lt]
    exact numeral_text h₁.field b₁.1 s₁
  · rw [state, toNat_unsigned h₂.field b₂.1 s₂ h.prevSuspendCount_lt]
    exact numeral_text h₂.field b₂.1 s₂
  · have hint : (BitVec.ofInt 32 r.priority.field.signed).toInt = r.priority.field.signed :=
      BitVec.toInt_ofInt_eq_self (by decide) hrange.1 hrange.2
    rw [state, hint]
    exact signedDecimal_of_field h₃.field b₃.1 hp.priority
  · simp only [state, decide_eq_true_eq]
  · rw [state, toNat_unsigned h₅.field b₅.1 s₅ h.group_lt]
    exact numeral_text h₅.field b₅.1 s₅
  · have hmask : ((r.mask.field.unsigned 64).setWidth b.bits).toNat = r.mask.field.value := by
      rw [BitVec.toNat_setWidth, toNat_unsigned h₆.field b₆.1 s₆ h.mask_lt,
        Nat.mod_eq_of_lt hp.mask]
    rw [state, hmask]
    exact numeral_text h₆.field b₆.1 s₆
  · exact flag_text hp.weSuspended.1 hp.weSuspended.2 hp.weSuspended_flag

theorem csvState_of_exportedLine {line : List Char} {st : ThreadState b}
    (h : ExportedLine line st) : csvState line = some st := by
  obtain ⟨r, hr, -, htext, hstate⟩ := h.row
  exact csvState_eq_some.mpr ⟨r, hr, htext, hstate⟩

theorem exportedState_eq_some {line : List Char} {st : ThreadState b} :
    exportedState line = some st ↔ ExportedLine line st := by
  have hdet : ∀ st', ExportedLine line st' → ExportedLine line st → st' = st := fun st' h' h =>
    Option.some.inj ((csvState_of_exportedLine h').symm.trans (csvState_of_exportedLine h))
  unfold exportedState
  by_cases hex : ∃ st : ThreadState b, ExportedLine line st
  · rw [dif_pos hex, Option.some.injEq]
    constructor
    · rintro rfl
      exact hex.choose_spec
    · exact hdet _ hex.choose_spec
  · rw [dif_neg hex]
    constructor
    · intro h
      cases h
    · intro h
      exact absurd ⟨st, h⟩ hex

theorem csvState_eq_exportedState_iff {line : List Char} :
    (csvState line : Option (ThreadState b)) = exportedState line ↔
      ∀ r : CsvRow, r.Accepted → r.text = line → r.Plain b := by
  constructor
  · rintro heq r hr rfl
    have hstate : (csvState r.text : Option (ThreadState b)) = some (r.state b) :=
      csvState_eq_some.mpr ⟨r, hr, rfl, rfl⟩
    obtain ⟨r', hr', hplain, htext, -⟩ := (exportedState_eq_some.mp (heq.symm.trans hstate)).row
    rwa [CsvRow.text_inj hr' hr htext] at hplain
  · intro hall
    cases hstate : (csvState line : Option (ThreadState b)) with
    | none =>
      cases hexp : (exportedState line : Option (ThreadState b)) with
      | none => rfl
      | some st =>
        rw [csvState_of_exportedLine (exportedState_eq_some.mp hexp)] at hstate
        cases hstate
    | some st =>
      obtain ⟨r, hr, rfl, rfl⟩ := csvState_eq_some.mp hstate
      exact (exportedState_eq_some.mpr (r.exportedLine hr (hall r hr rfl))).symm

theorem csvState_nil : (csvState [] : Option (ThreadState b)) = none := rfl

/-- Also an empty line would contribute nothing. -/
theorem csvStates_eq {text header body : List Char} (h : getline text = some (header, body)) :
    (csvStates text : List (ThreadState b)) = (lines body).filterMap csvState := by
  simp only [csvStates, h]
  refine List.filterMap_congr (fun line _ => ?_)
  split_ifs with hline
  · rw [hline, csvState_nil]
  · rfl

/-- An import gives the states of the exported lines and no others exactly if none of the
lines takes a liberty. -/
theorem importFromCSV_grammar_iff {path : String} {files : Files} {text header body : List Char}
    (hfile : files.content path = some text) (hheader : getline text = some (header, body)) :
    (importFromCSV path files).getD [] =
        (lines body).filterMap (exportedState : List Char → Option (ThreadState b)) ↔
      ∀ line ∈ lines body, line ≠ [] →
        ∀ r : CsvRow, r.Accepted → r.text = line → r.Plain b := by
  have himport : ((importFromCSV path files).getD [] : List (ThreadState b)) =
      (lines body).filterMap csvState := by
    simp only [importFromCSV, hfile, csvStates_eq hheader]
    split_ifs with hempty
    · exact (List.isEmpty_iff.mp hempty).symm
    · rfl
  have hmore : ∀ line ∈ lines body, ∀ st : ThreadState b,
      exportedState line = some st → csvState line = some st :=
    fun line _ st hst => csvState_of_exportedLine (exportedState_eq_some.mp hst)
  rw [himport, filterMap_eq_iff hmore]
  refine forall₂_congr (fun line _ => ?_)
  rw [csvState_eq_exportedState_iff]
  constructor
  · exact fun h _ => h
  · intro h r hr htext
    by_cases hline : line = []
    · have hstate : (csvState line : Option (ThreadState b)) = some (r.state b) :=
        csvState_eq_some.mpr ⟨r, hr, htext, rfl⟩
      rw [hline, csvState_nil] at hstate
      cases hstate
    · exact h hline r hr htext

def oneLine (line : String) : Files where
  content _ := some (csvHeader ++ '\n' :: line.toList)
  writable _ := false

theorem getline_oneLine (line : String) :
    getline (csvHeader ++ '\n' :: line.toList) = some (csvHeader, line.toList) := rfl

theorem importFromCSV_grammar_iff_exported :
    (importFromCSV "states.csv" (oneLine "1,2,-3,0,4,5,1")).getD [] =
        (lines "1,2,-3,0,4,5,1".toList).filterMap
          (exportedState : List Char → Option (ThreadState .x64)) ↔
      ∀ line ∈ lines "1,2,-3,0,4,5,1".toList, line ≠ [] →
        ∀ r : CsvRow, r.Accepted → r.text = line → r.Plain .x64 :=
  importFromCSV_grammar_iff rfl (getline_oneLine _)

/-- Semicolons are taken for commas. -/
theorem importFromCSV_semicolons :
    ¬ (importFromCSV "states.csv" (oneLine "1;2;3;0;0;1;1")).getD [] =
      (lines "1;2;3;0;0;1;1".toList).filterMap
        (exportedState : List Char → Option (ThreadState .x64)) := by
  have hline : lines "1;2;3;0;0;1;1".toList = ["1;2;3;0;0;1;1".toList] := by decide
  have hnone : (exportedState "1;2;3;0;0;1;1".toList : Option (ThreadState .x64)) = none := by
    cases hexp : (exportedState "1;2;3;0;0;1;1".toList : Option (ThreadState .x64)) with
    | none => rfl
    | some st =>
      obtain ⟨tid, rest, _, _, _, _, _, he, -⟩ := exportedState_eq_some.mp hexp
      have hcomma : ',' ∈ "1;2;3;0;0;1;1".toList := by
        rw [he]
        exact List.mem_append_right _ List.mem_cons_self
      exact absurd hcomma (by decide)
  rw [hline, List.filterMap_cons_none hnone, List.filterMap_nil]
  decide

end RoboDbg
