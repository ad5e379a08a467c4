import RoboDbg.Debugger

/-!
# Software breakpoints

`setBreakpoint`, `restoreBreakpoint` and `verifyBreakpoints` keep the table of
original bytes; `writeMemory` writes past it.
-/

namespace RoboDbg

open Std (TreeMap)

namespace Debugger

variable {b : Build}

def writeByte (who : Writer) (a : LPVOID b) (x : BYTE) (d : Debugger b) : Debugger b :=
  { d with
    os := { d.os with memory := (d.os.memory.writeProcessMemory who a [x]).getD d.os.memory } }

def setBreakpoint (address : LPVOID b) (d : Debugger b) : Debugger b :=
  let original := (d.os.memory.readByte address).getD d.os.indeterminate
  if original ≠ int3 then
    let d := { d with breakpoints := d.breakpoints.insert address original }
    d.writeByte .setBreakpoint address int3
  else d

def restoreBreakpoint (address : LPVOID b) (d : Debugger b) : Debugger b :=
  match d.breakpoints[address]? with
  | some original =>
    match d.os.memory.readByte address with
    | none => d
    | some cur => if cur ≠ int3 then d else d.writeByte .restoreBreakpoint address original
  | none => d

/-- The loop of `verifyBreakpoints` at index `i`. An erased element shifts its
successors down while `i` still moves on. -/
def verifyLoop (m : Memory b) :
    ℕ → ℕ → TreeMap (LPVOID b) BYTE compare → ℤ → TreeMap (LPVOID b) BYTE compare × ℤ
  | 0, _, bps, erased => (bps, erased)
  | fuel + 1, i, bps, erased =>
    match bps.entryAtIdx? i with
    | none => (bps, erased)
    | some bp =>
      match m.readByte bp.1 with
      | none => verifyLoop m fuel (i + 1) (bps.erase bp.1) (erased + 1)
      | some cur =>
        if cur ≠ int3 then verifyLoop m fuel (i + 1) (bps.erase bp.1) (erased + 1)
        else verifyLoop m fuel (i + 1) bps erased

def verifyBreakpoints (d : Debugger b) : Debugger b × ℤ :=
  let r := verifyLoop d.os.memory d.breakpoints.size 0 d.breakpoints 0
  ({ d with breakpoints := r.1 }, r.2)

def writeMemory (address : LPVOID b) (buffer : List BYTE) (d : Debugger b) : Debugger b × Bool :=
  match d.os.memory.writeProcessMemory .writeMemory address buffer with
  | none => (d, false)
  | some m => ({ d with os := { d.os with memory := m } }, true)

/-! ## What no patch changes -/

structure PatchFrame (d d' : Debugger b) : Prop where
  rest : d' = { d with
    os := { d.os with memory := d'.os.memory }
    breakpoints := d'.breakpoints }
  readable : d'.os.memory.readable = d.os.memory.readable
  writable : d'.os.memory.writable = d.os.memory.writable

namespace PatchFrame

variable {d d' d'' : Debugger b}

theorem refl (d : Debugger b) : PatchFrame d d := ⟨rfl, rfl, rfl⟩

theorem trans (h : PatchFrame d d') (h' : PatchFrame d' d'') : PatchFrame d d'' := by
  refine ⟨?_, h'.readable.trans h.readable, h'.writable.trans h.writable⟩
  rw [h'.rest, h.rest]

theorem accessible (h : PatchFrame d d') (ha : d.os.memory.Accessible) :
    d'.os.memory.Accessible := by
  intro a
  rw [h.readable, h.writable]
  exact ha a

theorem thread (h : PatchFrame d d') : d'.os.thread = d.os.thread := by rw [h.rest]

theorem handles (h : PatchFrame d d') : d'.os.handles = d.os.handles := by rw [h.rest]

theorem fails (h : PatchFrame d d') : d'.os.fails = d.os.fails := by rw [h.rest]

theorem trace (h : PatchFrame d d') : d'.trace = d.trace := by rw [h.rest]

end PatchFrame

theorem writeByte_frame (who : Writer) (a : LPVOID b) (x : BYTE) (d : Debugger b) :
    PatchFrame d (d.writeByte who a x) := by
  unfold writeByte Memory.writeProcessMemory
  split_ifs
  · exact ⟨rfl, rfl, rfl⟩
  · exact .refl d

theorem setBreakpoint_frame (a : LPVOID b) (d : Debugger b) : PatchFrame d (d.setBreakpoint a) := by
  have hf : ∀ original : BYTE,
      PatchFrame d { d with breakpoints := d.breakpoints.insert a original } :=
    fun _ => ⟨rfl, rfl, rfl⟩
  simp only [setBreakpoint]
  split_ifs
  · exact (hf _).trans (writeByte_frame _ _ _ _)
  · exact .refl d

theorem restoreBreakpoint_frame (a : LPVOID b) (d : Debugger b) :
    PatchFrame d (d.restoreBreakpoint a) := by
  unfold restoreBreakpoint
  split
  · split
    · exact .refl d
    · split_ifs
      · exact .refl d
      · exact writeByte_frame _ _ _ _
  · exact .refl d

@[simp] theorem restoreBreakpoint_breakpoints (a : LPVOID b) (d : Debugger b) :
    (d.restoreBreakpoint a).breakpoints = d.breakpoints := by
  unfold restoreBreakpoint
  split
  · split
    · rfl
    · split_ifs
      · rfl
      · rfl
  · rfl

/-! ## What each operation does to accessible memory -/

section Accessible

variable {d : Debugger b} (h : d.os.memory.Accessible)
include h

theorem writeByte_of_accessible (who : Writer) (a : LPVOID b) (x : BYTE) :
    d.writeByte who a x = { d with os := { d.os with memory := d.os.memory.store who a x } } := by
  unfold writeByte
  rw [h.writeProcessMemory]
  rfl

theorem setBreakpoint_of_armed {a : LPVOID b} (ha : d.Armed a) : d.setBreakpoint a = d := by
  have hb : d.os.memory.bytes a = int3 := ha
  simp [setBreakpoint, h.readByte, hb]

theorem setBreakpoint_of_not_armed {a : LPVOID b} (ha : ¬ d.Armed a) :
    d.setBreakpoint a =
      { d with
        os := { d.os with memory := d.os.memory.store .setBreakpoint a int3 }
        breakpoints := d.breakpoints.insert a (d.os.memory.bytes a) } := by
  have hb : ¬ d.os.memory.bytes a = int3 := ha
  simp only [setBreakpoint, h.readByte, Option.getD_some, ne_eq, hb, not_false_eq_true, if_true]
  exact writeByte_of_accessible (d := { d with
    breakpoints := d.breakpoints.insert a (d.os.memory.bytes a) }) h _ _ _

theorem restoreBreakpoint_of_armed {a : LPVOID b} {x : BYTE} (hx : d.breakpoints[a]? = some x)
    (ha : d.Armed a) :
    d.restoreBreakpoint a =
      { d with os := { d.os with memory := d.os.memory.store .restoreBreakpoint a x } } := by
  have hb : d.os.memory.bytes a = int3 := ha
  simp only [restoreBreakpoint, hx, h.readByte, hb, ne_eq, not_true_eq_false, if_false]
  exact writeByte_of_accessible h _ _ _

theorem restoreBreakpoint_of_not_armed {a : LPVOID b} (ha : ¬ d.Armed a) :
    d.restoreBreakpoint a = d := by
  have hb : ¬ d.os.memory.bytes a = int3 := ha
  unfold restoreBreakpoint
  cases d.breakpoints[a]? with
  | none => rfl
  | some x => simp only [h.readByte, ne_eq, hb, not_false_eq_true, if_true]

theorem restoreBreakpoint_armed_of_ne {a x : LPVOID b} (hne : x ≠ a) :
    (d.restoreBreakpoint a).Armed x ↔ d.Armed x := by
  by_cases ha : d.Armed a
  · cases hx : d.breakpoints[a]? with
    | none => rw [restoreBreakpoint, hx]
    | some y =>
      rw [restoreBreakpoint_of_armed h hx ha, Armed, Armed, Memory.store_bytes,
        Function.update_of_ne hne]
  · rw [restoreBreakpoint_of_not_armed h ha]

theorem setBreakpoint_armed (a x : LPVOID b) :
    (d.setBreakpoint a).Armed x ↔ x = a ∨ d.Armed x := by
  by_cases ha : d.Armed a
  · rw [setBreakpoint_of_armed h ha]
    constructor
    · exact Or.inr
    · rintro (rfl | hx)
      · exact ha
      · exact hx
  · rw [setBreakpoint_of_not_armed h ha, Armed, Armed, Memory.store_bytes]
    by_cases hx : x = a
    · simp [hx]
    · simp [hx]

theorem mem_setBreakpoint {a x : LPVOID b} (hx : x ∈ (d.setBreakpoint a).breakpoints) :
    x = a ∨ x ∈ d.breakpoints := by
  by_cases ha : d.Armed a
  · rw [setBreakpoint_of_armed h ha] at hx
    exact Or.inr hx
  · rw [setBreakpoint_of_not_armed h ha, TreeMap.mem_insert] at hx
    rcases hx with hx | hx
    · exact Or.inl (Std.LawfulEqCmp.eq_of_compare hx).symm
    · exact Or.inr hx

theorem writeMemory_of_accessible (a : LPVOID b) (xs : List BYTE) :
    d.writeMemory a xs =
      ({ d with os := { d.os with memory := Memory.storeAll .writeMemory a xs d.os.memory } },
        true) := by
  simp only [writeMemory, h.writeProcessMemory]

end Accessible

theorem restoreBreakpoint_of_not_listed {d : Debugger b} {a : LPVOID b}
    (ha : d.breakpoints[a]? = none) : d.restoreBreakpoint a = d := by
  simp [restoreBreakpoint, ha]

theorem getElem?_of_erase {bps : TreeMap (LPVOID b) BYTE compare} {a k : LPVOID b} {x : BYTE}
    (h : (bps.erase k)[a]? = some x) : bps[a]? = some x := by
  rw [TreeMap.getElem?_erase] at h
  split_ifs at h
  exact h

theorem verifyLoop_of_some {m : Memory b} {fuel i : ℕ} {bps : TreeMap (LPVOID b) BYTE compare}
    {erased : ℤ} {a : LPVOID b} {x : BYTE} (h : (verifyLoop m fuel i bps erased).1[a]? = some x) :
    bps[a]? = some x := by
  induction fuel generalizing i bps erased with
  | zero => exact h
  | succ fuel ih =>
    unfold verifyLoop at h
    cases hbp : bps.entryAtIdx? i with
    | none =>
      rw [hbp] at h
      exact h
    | some bp =>
      rw [hbp] at h
      cases hcur : m.readByte bp.1 with
      | none =>
        simp only [hcur] at h
        exact getElem?_of_erase (ih h)
      | some cur =>
        simp only [hcur] at h
        split_ifs at h
        · exact getElem?_of_erase (ih h)
        · exact ih h

theorem verifyLoop_getElem? {m : Memory b} (h : m.Accessible) (fuel i : ℕ)
    (bps : TreeMap (LPVOID b) BYTE compare) (erased : ℤ) (a : LPVOID b) :
    (verifyLoop m fuel i bps erased).1[a]? = bps[a]? ∨
      ((verifyLoop m fuel i bps erased).1[a]? = none ∧ m.bytes a ≠ int3) := by
  induction fuel generalizing i bps erased with
  | zero => exact Or.inl rfl
  | succ fuel ih =>
    unfold verifyLoop
    cases bps.entryAtIdx? i with
    | none => exact Or.inl rfl
    | some bp =>
      simp only [h.readByte]
      by_cases hcc : m.bytes bp.1 = int3
      · simpa only [hcc, ne_eq, not_true_eq_false, if_false] using ih (i + 1) bps erased
      · simp only [ne_eq, hcc, not_false_eq_true, if_true]
        rcases ih (i + 1) (bps.erase bp.1) (erased + 1) with he | hn
        · by_cases ha : bp.1 = a
          · subst ha
            exact Or.inr ⟨by rw [he]; simp, hcc⟩
          · refine Or.inl (he.trans ?_)
            simp [TreeMap.getElem?_erase, ha]
        · exact Or.inr hn

end Debugger
end RoboDbg
