import RoboDbg.Foundation.Formatted
import RoboDbg.FreezeRestore

/-!
# Thread states as CSV

`exportAsCSV` writes one line for each state and `importFromCSV` extracts the
fields of each line again, in the same order and through variables of the same
types. A list of states, as `suspend` returns them, survives the way through a file.
-/

namespace RoboDbg

open Formatted

variable {b : Build}

/-- The text of each file that exists, and which paths can be opened for writing. -/
structure Files where
  content : String → Option (List Char)
  writable : String → Bool

def csvHeader : List Char :=
  "tid,prevSuspendCount,priority,boostDisabled,group,mask,weSuspended".toList

def oneOrZero (c : Bool) : INT := if c then 1 else 0

def csvLine (st : ThreadState b) : List Char :=
  showNat st.tid.toNat ++ ',' ::
    (showNat st.prevSuspendCount.toNat ++ ',' ::
    (showInt st.dynPriority.toInt ++ ',' ::
    (showInt (oneOrZero (st.boostDisabled ≠ 0)).toInt ++ ',' ::
    (showNat st.groupAffinity.Group.toNat ++ ',' ::
    (showNat (st.groupAffinity.Mask.setWidth 64).toNat ++ ',' ::
    showInt (oneOrZero st.weSuspended).toInt)))))

def csvText (v : List (ThreadState b)) : List Char :=
  csvHeader ++ '\n' :: v.flatMap (fun st => csvLine st ++ ['\n'])

def exportAsCSV (v : List (ThreadState b)) (path : String) (files : Files) : Bool × Files :=
  if files.writable path then
    (true, { files with content := Function.update files.content path (some (csvText v)) })
  else (false, files)

/-- The extraction from one line; the separators are read and not looked at. -/
def csvState (line : List Char) : Option (ThreadState b) := do
  let (tid, ss) ← unsigned 32 line
  let (_, ss) ← char ss
  let (prevSuspendCount, ss) ← unsigned 32 ss
  let (_, ss) ← char ss
  let (dynPriority, ss) ← signed 32 ss
  let (_, ss) ← char ss
  let (boost, ss) ← signed 32 ss
  let (_, ss) ← char ss
  let (group, ss) ← unsigned 16 ss
  let (_, ss) ← char ss
  let (mask, ss) ← unsigned 64 ss
  let (_, ss) ← char ss
  let (suspended, _) ← signed 32 ss
  some {
    tid := tid
    prevSuspendCount := prevSuspendCount
    dynPriority := dynPriority
    boostDisabled := if boost ≠ 0 then 1 else 0
    groupAffinity := ⟨mask.setWidth b.bits, group, 0, 0, 0⟩
    weSuspended := suspended ≠ 0 }

/-- What the loop over the lines behind the header collects. -/
def csvStates (text : List Char) : List (ThreadState b) :=
  match getline text with
  | none => []
  | some (_, text) => (lines text).filterMap (fun line => if line = [] then none else csvState line)

def importFromCSV (path : String) (files : Files) : Option (List (ThreadState b)) :=
  match files.content path with
  | none => none
  | some text =>
    let v := csvStates text
    if v.isEmpty then none else some v

/-- The fields that the file does not keep as they are have the values that
`suspend` gives them. -/
structure ThreadState.Exportable (st : ThreadState b) : Prop where
  boostDisabled : st.boostDisabled = 0 ∨ st.boostDisabled = 1
  Reserved : st.groupAffinity.Reserved = (0, 0, 0)

theorem ThreadState.record_exportable (tid : DWORD) {s : Schedule b}
    (h : s.groupAffinity.Reserved = (0, 0, 0)) : (ThreadState.record tid s).Exportable := by
  refine ⟨?_, h⟩
  cases hb : s.boostDisabled <;> simp [ThreadState.record, hb]

/-! ## One line -/

theorem oneOrZero_ne_zero (c : Bool) : decide (oneOrZero c ≠ 0) = c := by
  cases c <;> rfl

theorem setWidth_setWidth_mask (x : DWORD_PTR b) : (x.setWidth 64).setWidth b.bits = x := by
  cases b with
  | x86 => exact BitVec.setWidth_setWidth_of_le x (by decide)
  | x64 => exact BitVec.setWidth_setWidth_of_le x (by decide)

theorem char_comma (cs : List Char) : char (',' :: cs) = some (',', cs) :=
  char_cons cs (by decide)

theorem noDigit_comma (cs : List Char) : NoDigit (',' :: cs) := noDigit_cons cs (by decide)

theorem csvState_csvLine {st : ThreadState b} (h : st.Exportable) :
    csvState (csvLine st) = some st := by
  have hboost : (if oneOrZero (decide (st.boostDisabled ≠ 0)) ≠ 0 then (1 : BOOL) else 0) =
      st.boostDisabled := by
    rcases h.boostDisabled with h0 | h1
    · rw [h0]
      rfl
    · rw [h1]
      rfl
  have hlast : signed 32 (showInt (oneOrZero st.weSuspended).toInt) =
      some (oneOrZero st.weSuspended, []) := by
    have hend := signed_showInt (oneOrZero st.weSuspended) noDigit_nil
    rwa [List.append_nil] at hend
  have haffinity : (⟨st.groupAffinity.Mask, st.groupAffinity.Group, 0, 0, 0⟩ : GroupAffinity b) =
      st.groupAffinity := by
    rw [← h.Reserved]
  -- one field of the line after the other, each with the comma behind it
  apply Option.bind_eq_some_iff.mpr ⟨_, unsigned_showNat _ (noDigit_comma _), ?_⟩
  apply Option.bind_eq_some_iff.mpr ⟨_, char_comma _, ?_⟩
  apply Option.bind_eq_some_iff.mpr ⟨_, unsigned_showNat _ (noDigit_comma _), ?_⟩
  apply Option.bind_eq_some_iff.mpr ⟨_, char_comma _, ?_⟩
  apply Option.bind_eq_some_iff.mpr ⟨_, signed_showInt _ (noDigit_comma _), ?_⟩
  apply Option.bind_eq_some_iff.mpr ⟨_, char_comma _, ?_⟩
  apply Option.bind_eq_some_iff.mpr ⟨_, signed_showInt _ (noDigit_comma _), ?_⟩
  apply Option.bind_eq_some_iff.mpr ⟨_, char_comma _, ?_⟩
  apply Option.bind_eq_some_iff.mpr ⟨_, unsigned_showNat _ (noDigit_comma _), ?_⟩
  apply Option.bind_eq_some_iff.mpr ⟨_, char_comma _, ?_⟩
  apply Option.bind_eq_some_iff.mpr ⟨_, unsigned_showNat _ (noDigit_comma _), ?_⟩
  apply Option.bind_eq_some_iff.mpr ⟨_, char_comma _, ?_⟩
  apply Option.bind_eq_some_iff.mpr ⟨_, hlast, ?_⟩
  simp only [hboost, oneOrZero_ne_zero, setWidth_setWidth_mask, haffinity]

theorem newline_notMem_csvLine (st : ThreadState b) : '\n' ∉ csvLine st := by
  have hcomma : '\n' ≠ ',' := by decide
  simp only [csvLine, List.mem_append, List.mem_cons, hcomma, newline_notMem_showNat,
    newline_notMem_showInt, or_self, not_false_eq_true]

theorem csvLine_ne_nil (st : ThreadState b) : csvLine st ≠ [] := by
  obtain ⟨c, cs, he⟩ := List.exists_cons_of_ne_nil (numeral_showNat st.tid.toNat).1
  simp [csvLine, he]

/-! ## The file -/

theorem csvStates_csvText {v : List (ThreadState b)} (h : ∀ st ∈ v, st.Exportable) :
    csvStates (csvText v) = v := by
  have hheader : lines (csvText v) = csvHeader :: v.map csvLine := by
    have hbody : v.flatMap (fun st => csvLine st ++ ['\n']) =
        (v.map csvLine).flatMap (fun l => l ++ ['\n']) := by
      rw [List.flatMap_map]
    rw [csvText, lines_append (by decide), hbody, lines_flatMap]
    intro l hl
    obtain ⟨st, -, rfl⟩ := List.mem_map.mp hl
    exact newline_notMem_csvLine st
  rw [lines_eq_getline] at hheader
  unfold csvStates
  cases hg : getline (csvText v) with
  | none =>
    rw [hg] at hheader
    cases hheader
  | some r =>
    rw [hg] at hheader
    obtain ⟨-, hlines⟩ := List.cons.inj hheader
    simp only [hlines, List.filterMap_map]
    rw [List.filterMap_congr (g := some), List.filterMap_some]
    intro st hst
    simp only [Function.comp_apply, if_neg (csvLine_ne_nil st), csvState_csvLine (h st hst)]

/-- Importing what has been exported returns the states, in the same order. -/
theorem importFromCSV_exportAsCSV {b : Build} {v : List (ThreadState b)} {path : String}
    {files : Files} (hne : v ≠ []) (hv : ∀ st ∈ v, st.Exportable)
    (hwritten : (exportAsCSV v path files).1 = true) :
    importFromCSV path (exportAsCSV v path files).2 = some v := by
  unfold exportAsCSV at hwritten ⊢
  split_ifs at hwritten ⊢
  · have hempty : v.isEmpty = false := by simpa using hne
    simp only [importFromCSV, Function.update_self, csvStates_csvText hv, hempty,
      Bool.false_eq_true, if_false]

theorem importFromCSV_exportAsCSV_two :
    let v : List (ThreadState .x64) := [
      ⟨0xFFFFFFFF, 0xFFFFFFF1, 1, ⟨0xFFFFFFFFFFFFFFFF, 0xFFFF, 0, 0, 0⟩, 0xFFFFFFFF, true⟩,
      ⟨0, 0x80000000, 0, ⟨0, 0, 0, 0, 0⟩, 0, false⟩]
    let files : Files := ⟨fun _ => none, fun _ => true⟩
    importFromCSV "states.csv" (exportAsCSV v "states.csv" files).2 = some v :=
  importFromCSV_exportAsCSV (by decide)
    (by
      intro st hst
      rcases List.mem_cons.mp hst with rfl | hst
      · exact ⟨by decide, rfl⟩
      · rw [List.mem_singleton.mp hst]
        exact ⟨by decide, rfl⟩)
    rfl

end RoboDbg
