import RoboDbg.Foundation.Runs
import RoboDbg.ProcessBreakpoints

/-!
# The tracker and the debug registers

`hwBreakpoints` files one record for each address, under the thread handle and
slot of its last set, and a clear removes it only through the same handle and
slot. `Mirrors` says that the tracker has exactly the addresses that some
thread of the process holds in an enabled slot.
-/

namespace RoboDbg

open Runs

variable {b : Build}

namespace Debugger

def Held (d : Debugger b) (a : LPVOID b) : Prop :=
  ∃ u ∈ d.os.processThreads, ∃ j s, d.slots u j = some s ∧ s.address = a

def HeldOutside (d : Debugger b) (tids : List DWORD) (i : Fin 4) (a : LPVOID b) : Prop :=
  ∃ u ∈ d.os.processThreads, ∃ j s,
    ¬ (u ∈ tids ∧ j = i) ∧ d.slots u j = some s ∧ s.address = a

def Mirrors (d : Debugger b) : Prop := ∀ a, a ∈ d.hwBreakpoints ↔ d.Held a

def Files (d : Debugger b) (hThread : HANDLE) (reg : DRReg) (a : LPVOID b) : Prop :=
  ∃ stored : HwBp b, d.hwBreakpoints[a]? = some stored ∧ stored.hThread = hThread ∧ stored.reg = reg

def RecordsOpen (d : Debugger b) : Prop :=
  ∀ (a : LPVOID b) (stored : HwBp b), d.hwBreakpoints[a]? = some stored →
    d.os.handles.lookup stored.hThread ≠ none

/-- Writing `a` into slot `i` of `tids` drops no address that the tracker goes on to
file, and files none that no thread of the process holds. -/
def SetKeeps (d : Debugger b) (tids : List DWORD) (i : Fin 4) (a : LPVOID b) : Prop :=
  (tids ≠ [] → (∃ u ∈ tids, u ∈ d.os.processThreads) ∨ d.Held a) ∧
    ∀ u ∈ tids, u ∈ d.os.processThreads → ∀ s, d.slots u i = some s →
      s.address = a ∨ d.HeldOutside tids i s.address

/-- Disabling slot `i` of `tids` drops no address. -/
def ClearKeeps (d : Debugger b) (tids : List DWORD) (i : Fin 4) : Prop :=
  ∀ u ∈ tids, u ∈ d.os.processThreads → ∀ s, d.slots u i = some s →
    d.HeldOutside tids i s.address

end Debugger

open Debugger

inductive TrackerOp (b : Build)
  | setHardwareBreakpoint (bp : HwBp b)
  | setHardwareBreakpointOnThread (bp : HwBp b)
  | clearHardwareBreakpoint (reg : DRReg)
  | clearHardwareBreakpointOnThread (hThread : HANDLE) (reg : DRReg)

namespace TrackerOp

def run (d : Debugger b) : TrackerOp b → Debugger b × Bool
  | setHardwareBreakpoint bp => d.setHardwareBreakpoint bp
  | setHardwareBreakpointOnThread bp => d.setHardwareBreakpointOnThread bp
  | clearHardwareBreakpoint reg => d.clearHardwareBreakpoint reg
  | clearHardwareBreakpointOnThread hThread reg => d.clearHardwareBreakpointOnThread hThread reg

end TrackerOp

def TrackerStep (d : Debugger b) (op : TrackerOp b) (d' : Debugger b) : Prop :=
  (op.run d).2 = true ∧ (op.run d).1 = d'

namespace Debugger

/-- When a successful call keeps the tracker in step. A process-wide clear works
through handles that are new, so it removes no record; a clear on one thread
removes the record that its own handle and slot made. -/
def KeepsMirror (d : Debugger b) : TrackerOp b → Prop
  | .setHardwareBreakpoint bp => ∀ i, bp.reg = .ofSlot i → d.SetKeeps d.openable i bp.address
  | .setHardwareBreakpointOnThread bp => ∀ tid i, d.os.handles.lookup bp.hThread = some tid →
      bp.reg = .ofSlot i → d.SetKeeps [tid] i bp.address
  | .clearHardwareBreakpoint reg => ∀ i, reg = .ofSlot i → d.ClearKeeps d.openable i
  | .clearHardwareBreakpointOnThread hThread reg => ∀ tid i,
      d.os.handles.lookup hThread = some tid → reg = .ofSlot i →
      let o := (d.os.context tid).drOf reg
      (o ≠ 0 ∧ d.Files hThread reg o → ¬ d.HeldOutside [tid] i o) ∧
        (¬ (o ≠ 0 ∧ d.Files hThread reg o) → d.ClearKeeps [tid] i)

variable {d d' : Debugger b} {tids : List DWORD} {i : Fin 4} {a : LPVOID b}

/-! ## What a write leaves held -/

theorem HeldOutside.held (h : d.HeldOutside tids i a) : d.Held a := by
  obtain ⟨u, hu, j, s, -, hs, ha⟩ := h
  exact ⟨u, hu, j, s, hs, ha⟩

theorem held_iff (tids : List DWORD) (i : Fin 4) :
    d.Held a ↔ d.HeldOutside tids i a ∨
      ∃ u ∈ tids, u ∈ d.os.processThreads ∧ ∃ s, d.slots u i = some s ∧ s.address = a := by
  constructor
  · rintro ⟨u, hu, j, s, hs, ha⟩
    by_cases hin : u ∈ tids ∧ j = i
    · obtain ⟨htid, rfl⟩ := hin
      exact Or.inr ⟨u, htid, hu, s, hs, ha⟩
    · exact Or.inl ⟨u, hu, j, s, hin, hs, ha⟩
  · rintro (h | ⟨u, -, hu, s, hs, ha⟩)
    · exact h.held
    · exact ⟨u, hu, i, s, hs, ha⟩

section Write

variable {v : Option (Slot b)} (hprocess : d'.os.processThreads = d.os.processThreads)
  (hslots : ∀ u, d'.slots u = if u ∈ tids then Function.update (d.slots u) i v else d.slots u)
include hprocess hslots

theorem held_of_write :
    d'.Held a ↔ d.HeldOutside tids i a ∨
      (∃ u ∈ tids, u ∈ d.os.processThreads) ∧ ∃ s, v = some s ∧ s.address = a := by
  have hin : ∀ u ∈ tids, d'.slots u i = v := by
    intro u hu
    rw [hslots, if_pos hu, Function.update_self]
  have hout : ∀ u j, ¬ (u ∈ tids ∧ j = i) → d'.slots u j = d.slots u j := by
    intro u j hne
    rw [hslots]
    split_ifs with hu
    · exact Function.update_of_ne (fun hj => hne ⟨hu, hj⟩) _ _
    · rfl
  constructor
  · rintro ⟨u, hu, j, s, hs, ha⟩
    rw [hprocess] at hu
    by_cases hui : u ∈ tids ∧ j = i
    · obtain ⟨htid, rfl⟩ := hui
      exact Or.inr ⟨⟨u, htid, hu⟩, s, (hin u htid).symm.trans hs, ha⟩
    · exact Or.inl ⟨u, hu, j, s, hui, (hout u j hui).symm.trans hs, ha⟩
  · rintro (⟨u, hu, j, s, hne, hs, ha⟩ | ⟨⟨u, htid, hu⟩, s, hv, ha⟩)
    · exact ⟨u, hprocess ▸ hu, j, s, (hout u j hne).trans hs, ha⟩
    · exact ⟨u, hprocess ▸ hu, i, s, (hin u htid).trans hv, ha⟩

end Write

theorem SetKeeps.of_disabled (hu : ∃ u ∈ tids, u ∈ d.os.processThreads)
    (hnone : ∀ u ∈ tids, d.slots u i = none) : d.SetKeeps tids i a := by
  refine ⟨fun _ => Or.inl hu, fun u htid _ s hs => ?_⟩
  rw [hnone u htid] at hs
  cases hs

/-- A set: the tracker gains the address if there is a thread to write to. -/
theorem Mirrors.set_iff (hm : d.Mirrors) {s : Slot b}
    (hprocess : d'.os.processThreads = d.os.processThreads)
    (hslots : ∀ u, d'.slots u =
      if u ∈ tids then Function.update (d.slots u) i (some s) else d.slots u)
    (htracked : ∀ a, a ∈ d'.hwBreakpoints ↔ a ∈ d.hwBreakpoints ∨ tids ≠ [] ∧ a = s.address) :
    d'.Mirrors ↔ d.SetKeeps tids i s.address := by
  have hheld (a : LPVOID b) : d'.Held a ↔ d.HeldOutside tids i a ∨
      (∃ u ∈ tids, u ∈ d.os.processThreads) ∧ s.address = a := by
    rw [held_of_write hprocess hslots]
    simp
  constructor
  · intro hm'
    refine ⟨fun hne => ?_, fun u htid hu s' hs' => ?_⟩
    · have hin := (htracked s.address).mpr (Or.inr ⟨hne, rfl⟩)
      rcases (hheld _).mp ((hm' _).mp hin) with ho | ⟨hu, -⟩
      · exact Or.inr ho.held
      · exact Or.inl hu
    · have hin := (htracked s'.address).mpr (Or.inl ((hm _).mpr ⟨u, hu, i, s', hs', rfl⟩))
      rcases (hheld _).mp ((hm' _).mp hin) with ho | ⟨-, ha⟩
      · exact Or.inr ho
      · exact Or.inl ha.symm
  · rintro ⟨hnew, hold⟩ a
    rw [htracked, hheld, hm a]
    constructor
    · rintro (ha | ⟨hne, rfl⟩)
      · rcases (held_iff tids i).mp ha with ho | ⟨u, htid, hu, s', hs', rfl⟩
        · exact Or.inl ho
        · rcases hold u htid hu s' hs' with he | ho
          · exact Or.inr ⟨⟨u, htid, hu⟩, he.symm⟩
          · exact Or.inl ho
      · rcases hnew hne with hu | ha
        · exact Or.inr ⟨hu, rfl⟩
        · rcases (held_iff tids i).mp ha with ho | ⟨u, htid, hu, -⟩
          · exact Or.inl ho
          · exact Or.inr ⟨⟨u, htid, hu⟩, rfl⟩
    · rintro (ho | ⟨⟨u, htid, -⟩, rfl⟩)
      · exact Or.inl ho.held
      · exact Or.inr ⟨List.ne_nil_of_mem htid, rfl⟩

theorem Mirrors.clear_iff (hm : d.Mirrors)
    (hprocess : d'.os.processThreads = d.os.processThreads)
    (hslots : ∀ u, d'.slots u =
      if u ∈ tids then Function.update (d.slots u) i none else d.slots u)
    (htracked : d'.hwBreakpoints = d.hwBreakpoints) : d'.Mirrors ↔ d.ClearKeeps tids i := by
  have hheld (a : LPVOID b) : d'.Held a ↔ d.HeldOutside tids i a := by
    rw [held_of_write hprocess hslots]
    simp
  constructor
  · intro hm' u htid hu s hs
    have hin := (hm s.address).mpr ⟨u, hu, i, s, hs, rfl⟩
    rw [← htracked] at hin
    exact (hheld _).mp ((hm' _).mp hin)
  · intro hkeeps a
    rw [htracked, hheld, hm a]
    refine ⟨fun ha => ?_, HeldOutside.held⟩
    rcases (held_iff tids i).mp ha with ho | ⟨u, htid, hu, s, hs, rfl⟩
    · exact ho
    · exact hkeeps u htid hu s hs

theorem Mirrors.untrack_iff (hm : d.Mirrors) {tid : DWORD} {o : LPVOID b}
    (hprocess : d'.os.processThreads = d.os.processThreads)
    (hslots : ∀ u, d'.slots u =
      if u ∈ [tid] then Function.update (d.slots u) i none else d.slots u)
    (hslot : ∀ s, d.slots tid i = some s → s.address = o)
    (htracked : ∀ a, a ∈ d'.hwBreakpoints ↔ a ∈ d.hwBreakpoints ∧ a ≠ o) :
    d'.Mirrors ↔ ¬ d.HeldOutside [tid] i o := by
  have hheld (a : LPVOID b) : d'.Held a ↔ d.HeldOutside [tid] i a := by
    rw [held_of_write hprocess hslots]
    simp
  constructor
  · intro hm' ho
    have hin := (hm' o).mpr ((hheld o).mpr ho)
    exact ((htracked o).mp hin).2 rfl
  · intro hno a
    rw [htracked, hheld, hm a]
    constructor
    · rintro ⟨ha, hne⟩
      rcases (held_iff [tid] i).mp ha with ho | ⟨u, htid, -, s, hs, rfl⟩
      · exact ho
      · rw [List.mem_singleton.mp htid] at hs
        exact absurd (hslot s hs) hne
    · intro ho
      refine ⟨ho.held, ?_⟩
      rintro rfl
      exact hno ho

/-! ## What each call does to the tracker -/

theorem untrack_of_files {hThread : HANDLE} {reg : DRReg} (h : a ≠ 0 ∧ d.Files hThread reg a) :
    d.untrack hThread reg a = { d with hwBreakpoints := d.hwBreakpoints.erase a } := by
  obtain ⟨hne, stored, hget, hfiles⟩ := h
  simp only [untrack, if_neg hne, hget, if_pos hfiles]

theorem untrack_of_not_files {hThread : HANDLE} {reg : DRReg}
    (h : ¬ (a ≠ 0 ∧ d.Files hThread reg a)) : d.untrack hThread reg a = d := by
  unfold untrack
  split_ifs with hne
  · rfl
  · split
    · rfl
    · next stored hget =>
      split_ifs with hfiles
      · exact absurd ⟨hne, stored, hget, hfiles⟩ h
      · rfl

theorem RecordsOpen.mono (h : d.RecordsOpen) (hhandles : d.os.handles.Extends d'.os.handles)
    (hrecords : ∀ (a : LPVOID b) (stored : HwBp b), d'.hwBreakpoints[a]? = some stored →
      d.hwBreakpoints[a]? = some stored) : d'.RecordsOpen := by
  intro a stored hget hnone
  exact h a stored (hrecords a stored hget) (hhandles.lookup_none hnone)

theorem RecordsOpen.insert {bp : HwBp b} (h : d.RecordsOpen)
    (hhandles : d'.os.handles = d.os.handles) (hbp : d.os.handles.lookup bp.hThread ≠ none)
    (htracked : d'.hwBreakpoints = d.hwBreakpoints.insert bp.address bp) : d'.RecordsOpen := by
  intro a stored hget
  rw [htracked, Std.TreeMap.getElem?_insert] at hget
  rw [hhandles]
  split_ifs at hget with ha
  · rw [← Option.some.inj hget]
    exact hbp
  · exact h a stored hget

theorem RecordsOpen.set {bp : HwBp b} (h : d.RecordsOpen)
    (hok : (d.setHardwareBreakpointOnThread bp).2 = true) :
    (d.setHardwareBreakpointOnThread bp).1.RecordsOpen := by
  obtain ⟨tid, ctx, hl, -, -, he⟩ := setHardwareBreakpointOnThread_true hok
  rw [he]
  refine h.insert rfl ?_ rfl
  rw [hl]
  exact Option.some_ne_none tid

theorem RecordsOpen.untrack {hThread : HANDLE} {reg : DRReg} (h : d.RecordsOpen) :
    (d.untrack hThread reg a).RecordsOpen := by
  by_cases hfiles : a ≠ 0 ∧ d.Files hThread reg a
  · rw [untrack_of_files hfiles]
    refine h.mono (.refl _) (fun x stored hget => ?_)
    rw [Std.TreeMap.getElem?_erase] at hget
    split_ifs at hget
    exact hget
  · rw [untrack_of_not_files hfiles]
    exact h

theorem RecordsOpen.clear {hThread : HANDLE} {reg : DRReg} (h : d.RecordsOpen)
    (hok : (d.clearHardwareBreakpointOnThread hThread reg).2 = true) :
    (d.clearHardwareBreakpointOnThread hThread reg).1.RecordsOpen := by
  obtain ⟨tid, i, -, -, he⟩ := clearHardwareBreakpointOnThread_true hok
  rw [he]
  have h₁ : RecordsOpen
      { d with os := d.os.withContext tid ((d.os.context tid).release reg) } := h
  exact h₁.untrack

theorem mem_insert_iff {bp : HwBp b} :
    a ∈ d.hwBreakpoints.insert bp.address bp ↔ a ∈ d.hwBreakpoints ∨ a = bp.address := by
  rw [Std.TreeMap.mem_insert, Std.LawfulEqCmp.compare_eq_iff_eq, or_comm, eq_comm]

theorem forThreads_set {bp : HwBp b} (threads : List (Thread b)) (h : d.RecordsOpen)
    (hok : (forThreads (fun thread d =>
      d.setHardwareBreakpointOnThread { bp with hThread := thread.hThread }) threads d).2 = true) :
    let d' := (forThreads (fun thread d =>
      d.setHardwareBreakpointOnThread { bp with hThread := thread.hThread }) threads d).1
    d'.RecordsOpen ∧
      ∀ a, a ∈ d'.hwBreakpoints ↔ a ∈ d.hwBreakpoints ∨ threads ≠ [] ∧ a = bp.address := by
  induction threads generalizing d with
  | nil => exact ⟨h, fun a => by simp [forThreads]⟩
  | cons thread threads ih =>
    obtain ⟨hfirst, hrest⟩ := forThreads_cons hok
    obtain ⟨tid, ctx, -, -, -, he⟩ := setHardwareBreakpointOnThread_true hfirst
    obtain ⟨hopen, htracked⟩ := ih (h.set hfirst) hrest
    refine ⟨hopen, fun a => ?_⟩
    have hmem : a ∈ (d.setHardwareBreakpointOnThread
        { bp with hThread := thread.hThread }).1.hwBreakpoints ↔
        a ∈ d.hwBreakpoints ∨ a = bp.address := by
      rw [he]
      exact mem_insert_iff
    rw [forThreads, htracked a, hmem]
    simp only [ne_eq, List.cons_ne_nil, not_false_eq_true, true_and]
    tauto

/-- Through handles that no record names, nothing is removed. -/
theorem forThreads_clear {reg : DRReg} (threads : List (Thread b))
    (hfresh : ∀ thread ∈ threads, ∀ a, ¬ d.Files thread.hThread reg a)
    (hok : (forThreads (fun thread d =>
      d.clearHardwareBreakpointOnThread thread.hThread reg) threads d).2 = true) :
    (forThreads (fun thread d =>
      d.clearHardwareBreakpointOnThread thread.hThread reg) threads d).1.hwBreakpoints =
        d.hwBreakpoints := by
  induction threads generalizing d with
  | nil => rfl
  | cons thread threads ih =>
    obtain ⟨hfirst, hrest⟩ := forThreads_cons hok
    obtain ⟨tid, i, -, -, he⟩ := clearHardwareBreakpointOnThread_true hfirst
    have hsame : (d.clearHardwareBreakpointOnThread thread.hThread reg).1.hwBreakpoints =
        d.hwBreakpoints := by
      rw [he, untrack_of_not_files]
      exact fun hfiles => hfresh thread List.mem_cons_self _ hfiles.2
    rw [forThreads, ih ?_ hrest, hsame]
    intro t ht a hfiles
    unfold Files at hfiles
    rw [hsame] at hfiles
    exact hfresh t (List.mem_cons_of_mem _ ht) a hfiles

theorem openThreads_hwBreakpoints (tids : List DWORD) (d : Debugger b) :
    (d.openThreads tids).hwBreakpoints = d.hwBreakpoints := by
  induction tids generalizing d with
  | nil => rfl
  | cons tid tids ih =>
    rw [openThreads]
    split
    · exact ih d
    · exact ih _

theorem actualizeThreadList_hwBreakpoints (d : Debugger b) :
    d.actualizeThreadList.hwBreakpoints = d.hwBreakpoints := by
  simp only [actualizeThreadList]
  split_ifs
  · rfl
  · rfl
  · exact openThreads_hwBreakpoints _ _

theorem RecordsOpen.actualizeThreadList (h : d.RecordsOpen) :
    d.actualizeThreadList.RecordsOpen := by
  refine h.mono (actualizeThreadList_frame d).handles (fun a stored hget => ?_)
  rwa [actualizeThreadList_hwBreakpoints] at hget

theorem threads_ne_nil_iff (d : Debugger b) :
    d.actualizeThreadList.threads ≠ [] ↔ d.openable ≠ [] := by
  obtain ⟨-, -, hids, -⟩ := actualizeThreadList_opened d
  rw [← hids, ne_eq, ne_eq, List.map_eq_nil_iff]

/-! ## One call -/

theorem forall_slot_iff {reg : DRReg} (hreg : reg = .ofSlot i) {p : Fin 4 → Prop} :
    (∀ j, reg = .ofSlot j → p j) ↔ p i := by
  constructor
  · exact fun h => h i hreg
  · rintro h j hj
    have hval : (i : ℕ) = j := by
      rw [← DRReg.toInt_ofSlot i, ← DRReg.toInt_ofSlot j, ← hreg, hj]
    rwa [← Fin.ext hval]

theorem slots_put (m : SlotMap b) (tid : DWORD) (i : Fin 4) (s : Option (Slot b)) (u : DWORD) :
    m.put tid i s u = if u ∈ [tid] then Function.update (m u) i s else m u := by
  by_cases hu : u = tid
  · subst hu
    simp [SlotMap.put]
  · simp [SlotMap.put, hu]

theorem Mirrors.setHardwareBreakpoint (hm : d.Mirrors) (hopen : d.RecordsOpen) {bp : HwBp b}
    (hok : (d.setHardwareBreakpoint bp).2 = true) :
    (d.setHardwareBreakpoint bp).1.RecordsOpen ∧
      ((d.setHardwareBreakpoint bp).1.Mirrors ↔ d.KeepsMirror (.setHardwareBreakpoint bp)) := by
  obtain ⟨i, hreg⟩ : ∃ i, bp.reg = .ofSlot i := by
    refine DRReg.eq_ofSlot (fun hnop => ?_)
    simp [Debugger.setHardwareBreakpoint, hnop, DRReg.toInt] at hok
  have hputs := setHardwareBreakpoint_puts hreg hok
  rw [setHardwareBreakpoint_eq hreg] at hok
  obtain ⟨hopen', htracked⟩ := forThreads_set _ hopen.actualizeThreadList.actualizeThreadList hok
  rw [← setHardwareBreakpoint_eq hreg] at hopen' htracked
  simp only [threads_ne_nil_iff, (actualizeThreadList_frame d).openable,
    actualizeThreadList_hwBreakpoints] at htracked
  refine ⟨hopen', ?_⟩
  rw [hm.set_iff hputs.frame.processThreads hputs.slots htracked]
  exact (forall_slot_iff (p := fun i => d.SetKeeps d.openable i bp.address) hreg).symm

theorem Mirrors.setHardwareBreakpointOnThread (hm : d.Mirrors) {bp : HwBp b}
    (hok : (d.setHardwareBreakpointOnThread bp).2 = true) :
    (d.setHardwareBreakpointOnThread bp).1.Mirrors ↔
      d.KeepsMirror (.setHardwareBreakpointOnThread bp) := by
  obtain ⟨tid, ctx, hl, hassign, -, he⟩ := setHardwareBreakpointOnThread_true hok
  obtain ⟨i, hreg⟩ : ∃ i, bp.reg = .ofSlot i := by
    refine DRReg.eq_ofSlot (fun hnop => ?_)
    simp [Context.assign, Context.withDr, hnop] at hassign
  have hputs := puts_of_set hl hreg hok
  have hslots (u : DWORD) : (d.setHardwareBreakpointOnThread bp).1.slots u =
      if u ∈ [tid] then Function.update (d.slots u) i (some ⟨bp.address, bp.type, bp.len⟩)
      else d.slots u := by
    rw [hputs.slots, slots_put]
  have htracked (a : LPVOID b) : a ∈ (d.setHardwareBreakpointOnThread bp).1.hwBreakpoints ↔
      a ∈ d.hwBreakpoints ∨ [tid] ≠ [] ∧ a = bp.address := by
    rw [he]
    simp only [ne_eq, List.cons_ne_nil, not_false_eq_true, true_and]
    exact mem_insert_iff
  rw [hm.set_iff hputs.frame.processThreads hslots htracked]
  constructor
  · intro hkeeps tid' j hl' hj
    obtain rfl : tid = tid' := Option.some.inj (hl.symm.trans hl')
    exact (forall_slot_iff (p := fun i => d.SetKeeps [tid] i bp.address) hreg).mpr hkeeps j hj
  · exact fun hkeeps => hkeeps tid i hl hreg

theorem Mirrors.clearHardwareBreakpoint (hm : d.Mirrors) (hopen : d.RecordsOpen) {reg : DRReg}
    (hok : (d.clearHardwareBreakpoint reg).2 = true) :
    (d.clearHardwareBreakpoint reg).1.RecordsOpen ∧
      ((d.clearHardwareBreakpoint reg).1.Mirrors ↔
        d.KeepsMirror (.clearHardwareBreakpoint reg)) := by
  have hf := clearHardwareBreakpoint_frame reg d
  obtain ⟨-, -, -, hfresh⟩ := actualizeThreadList_opened d
  have htracked : (d.clearHardwareBreakpoint reg).1.hwBreakpoints = d.hwBreakpoints := by
    rw [← actualizeThreadList_hwBreakpoints d]
    refine forThreads_clear _ (fun thread hmem a hfiles => ?_) hok
    obtain ⟨stored, hget, hsame, -⟩ := hfiles
    rw [actualizeThreadList_hwBreakpoints] at hget
    exact hopen a stored hget (hsame ▸ hfresh thread hmem)
  refine ⟨hopen.mono hf.handles (fun a stored hget => htracked ▸ hget), ?_⟩
  by_cases hnop : reg = .NOP
  · -- a list without threads: nothing is written
    have hnone : d.actualizeThreadList.threads = [] := by
      cases hthreads : d.actualizeThreadList.threads with
      | nil => rfl
      | cons thread threads =>
        simp [Debugger.clearHardwareBreakpoint, hthreads, forThreads,
          Debugger.clearHardwareBreakpointOnThread, hnop, DRReg.toInt] at hok
    have hempty : d.openable = [] := by
      by_contra hne
      exact (threads_ne_nil_iff d).mpr hne hnone
    have hsame : (d.clearHardwareBreakpoint reg).1 = d.actualizeThreadList := by
      rw [Debugger.clearHardwareBreakpoint, hnone]
      rfl
    obtain ⟨hthread, -, -, -⟩ := actualizeThreadList_opened d
    have hslots (u : DWORD) : (d.clearHardwareBreakpoint reg).1.slots u =
        if u ∈ d.openable then Function.update (d.slots u) 0 none else d.slots u := by
      rw [hsame, slots_eq_of_thread hthread, hempty, if_neg List.not_mem_nil]
    rw [hm.clear_iff hf.processThreads hslots htracked]
    refine iff_of_true (fun u hu => ?_) (fun i hi => ?_)
    · rw [hempty] at hu
      cases hu
    · exact absurd (hi.symm.trans hnop) (DRReg.ofSlot_ne_NOP i)
  · obtain ⟨i, hreg⟩ := DRReg.eq_ofSlot hnop
    have hslots := (clearHardwareBreakpoint_puts (hreg ▸ hok)).slots
    rw [← hreg] at hslots
    rw [hm.clear_iff hf.processThreads hslots htracked]
    exact (forall_slot_iff (p := fun i => d.ClearKeeps d.openable i) hreg).symm

theorem drOf_slot {ctx : Context b} {s : Slot b} (hs : ctx.slot i = some s) :
    s.address = ctx.drOf (.ofSlot i) := by
  rw [(slot_eq_some hs).2]
  fin_cases i <;> rfl

theorem Mirrors.clearHardwareBreakpointOnThread (hm : d.Mirrors) {hThread : HANDLE} {reg : DRReg}
    (hok : (d.clearHardwareBreakpointOnThread hThread reg).2 = true) :
    (d.clearHardwareBreakpointOnThread hThread reg).1.Mirrors ↔
      d.KeepsMirror (.clearHardwareBreakpointOnThread hThread reg) := by
  obtain ⟨tid, i, hl, hreg, he⟩ := clearHardwareBreakpointOnThread_true hok
  have hputs := puts_of_clear hl (hreg ▸ hok)
  rw [← hreg] at hputs
  have hslots (u : DWORD) : (d.clearHardwareBreakpointOnThread hThread reg).1.slots u =
      if u ∈ [tid] then Function.update (d.slots u) i none else d.slots u := by
    rw [hputs.slots, slots_put]
  let o := (d.os.context tid).drOf reg
  let d₁ : Debugger b := { d with
    os := d.os.withContext tid ((d.os.context tid).release reg) }
  have honly : d.KeepsMirror (.clearHardwareBreakpointOnThread hThread reg) ↔
      (o ≠ 0 ∧ d.Files hThread reg o → ¬ d.HeldOutside [tid] i o) ∧
        (¬ (o ≠ 0 ∧ d.Files hThread reg o) → d.ClearKeeps [tid] i) := by
    constructor
    · exact fun hkeeps => hkeeps tid i hl hreg
    · intro hkeeps tid' j hl' hj
      obtain rfl : tid = tid' := Option.some.inj (hl.symm.trans hl')
      exact (forall_slot_iff (p := fun i => (o ≠ 0 ∧ d.Files hThread reg o →
        ¬ d.HeldOutside [tid] i o) ∧ (¬ (o ≠ 0 ∧ d.Files hThread reg o) →
          d.ClearKeeps [tid] i)) hreg).mpr hkeeps j hj
  rw [honly]
  by_cases hfiles : o ≠ 0 ∧ d.Files hThread reg o
  · have hslot (s : Slot b) (hs : d.slots tid i = some s) : s.address = o := by
      rw [drOf_slot hs, ← hreg]
    have htracked (a : LPVOID b) :
        a ∈ (d.clearHardwareBreakpointOnThread hThread reg).1.hwBreakpoints ↔
          a ∈ d.hwBreakpoints ∧ a ≠ o := by
      have hfiles₁ : o ≠ 0 ∧ d₁.Files hThread reg o := hfiles
      rw [he, untrack_of_files hfiles₁, Std.TreeMap.mem_erase, and_comm]
      refine and_congr_right (fun _ => not_congr ?_)
      rw [Std.LawfulEqCmp.compare_eq_iff_eq]
      exact eq_comm
    rw [hm.untrack_iff hputs.frame.processThreads hslots hslot htracked]
    exact ⟨fun hno => ⟨fun _ => hno, fun hcon => absurd hfiles hcon⟩, fun h => h.1 hfiles⟩
  · have htracked : (d.clearHardwareBreakpointOnThread hThread reg).1.hwBreakpoints =
        d.hwBreakpoints := by
      have hfiles₁ : ¬ (o ≠ 0 ∧ d₁.Files hThread reg o) := hfiles
      rw [he, untrack_of_not_files hfiles₁]
    rw [hm.clear_iff hputs.frame.processThreads hslots htracked]
    exact ⟨fun hkeeps => ⟨fun hcon => absurd hcon hfiles, fun _ => hkeeps⟩, fun h => h.2 hfiles⟩

theorem Mirrors.step {op : TrackerOp b} (hm : d.Mirrors) (hopen : d.RecordsOpen)
    (hstep : TrackerStep d op d') : d'.RecordsOpen ∧ (d'.Mirrors ↔ d.KeepsMirror op) := by
  obtain ⟨hok, rfl⟩ := hstep
  cases op with
  | setHardwareBreakpoint bp => exact hm.setHardwareBreakpoint hopen hok
  | setHardwareBreakpointOnThread bp =>
    exact ⟨hopen.set hok, hm.setHardwareBreakpointOnThread hok⟩
  | clearHardwareBreakpoint reg => exact hm.clearHardwareBreakpoint hopen hok
  | clearHardwareBreakpointOnThread hThread reg =>
    exact ⟨hopen.clear hok, hm.clearHardwareBreakpointOnThread hok⟩

end Debugger

/-- From disabled slots and an empty tracker: in every run of successful calls in which
each call keeps the tracker in step, its keys are the addresses of the enabled slots of
the process; and from every state of such a run, the next call keeps it so exactly if it
meets the condition. -/
theorem tracker_mirrors {d d' : Debugger b} {ops : List (TrackerOp b)}
    (hempty : d.hwBreakpoints = ∅)
    (hdisabled : ∀ u ∈ d.os.processThreads, ∀ i, d.slots u i = none)
    (hrun : Run (Restrict TrackerStep KeepsMirror) d ops d') :
    d'.Mirrors ∧ ∀ op d'', TrackerStep d' op d'' → (d''.Mirrors ↔ d'.KeepsMirror op) := by
  have hmirrors : d.Mirrors := by
    intro a
    rw [hempty]
    refine iff_of_false Std.TreeMap.not_mem_emptyc ?_
    rintro ⟨u, hu, i, s, hs, -⟩
    rw [hdisabled u hu i] at hs
    cases hs
  have hopen : d.RecordsOpen := by
    intro a stored hget
    rw [hempty, Std.TreeMap.getElem?_emptyc] at hget
    cases hget
  have hkeep (d : Debugger b) (op : TrackerOp b) (d' : Debugger b)
      (h : d.Mirrors ∧ d.RecordsOpen) (hstep : Restrict TrackerStep KeepsMirror d op d') :
      d'.Mirrors ∧ d'.RecordsOpen := by
    obtain ⟨hopen, hiff⟩ := h.1.step h.2 hstep.1
    exact ⟨hiff.mpr hstep.2, hopen⟩
  obtain ⟨hm, ho⟩ := hrun.invariant hkeep ⟨hmirrors, hopen⟩
  exact ⟨hm, fun op d'' hstep => (hm.step ho hstep).2⟩

/-- One address on one thread, then another one on both. -/
theorem tracker_mirrors_two_slots :
    let d : Debugger .x64 := (new (.ofCode (fun _ => 0x90) [7, 8])).actualizeThreadList
    let ops : List (TrackerOp .x64) :=
      [.setHardwareBreakpointOnThread ⟨1, 0x1000, .DR0, .EXECUTE, .BYTE⟩,
        .setHardwareBreakpoint ⟨0, 0x2000, .DR1, .WRITE, .DWORD⟩]
    (ops.foldl (fun d op => (op.run d).1) d).Mirrors := by
  intro d ops
  let d₁ := (d.setHardwareBreakpointOnThread ⟨1, 0x1000, .DR0, .EXECUTE, .BYTE⟩).1
  have hdisabled : ∀ u ∈ d.os.processThreads, ∀ i, d.slots u i = none := by
    intro u _ i
    obtain ⟨hthread, -, -, -⟩ := actualizeThreadList_opened (b := .x64)
      (new (.ofCode (fun _ => 0x90) [7, 8]))
    rw [slots_eq_of_thread hthread]
    change (Context.zero : Context .x64).slot i = none
    revert i
    decide
  have hkeeps : d.KeepsMirror
      (.setHardwareBreakpointOnThread ⟨1, 0x1000, .DR0, .EXECUTE, .BYTE⟩) := by
    intro tid i hl _
    have hl' : d.os.handles.lookup 1 = some 7 := by decide
    obtain rfl : 7 = tid := Option.some.inj (hl'.symm.trans hl)
    refine .of_disabled ⟨7, by decide, by decide⟩ (fun u hu => hdisabled u ?_ i)
    rw [List.mem_singleton.mp hu]
    decide
  have hkeeps₁ : d₁.KeepsMirror (.setHardwareBreakpoint ⟨0, 0x2000, .DR1, .WRITE, .DWORD⟩) := by
    refine (forall_slot_iff (i := 1) rfl).mpr (.of_disabled ⟨7, by decide, by decide⟩ ?_)
    have h7 : d₁.slots 7 1 = none := by decide
    have h8 : d₁.slots 8 1 = none := by decide
    have hall : d₁.openable = [7, 8] := rfl
    rw [hall]
    intro u hu
    rcases List.mem_pair.mp hu with rfl | rfl
    · exact h7
    · exact h8
  exact (tracker_mirrors rfl hdisabled
    (.cons ⟨⟨by decide, rfl⟩, hkeeps⟩ (.cons ⟨⟨by decide, rfl⟩, hkeeps₁⟩ (.nil _)))).1

/-- A breakpoint that is set and cleared again in the whole process stays in the
tracker: the clear works through handles of its own. -/
theorem cleared_still_tracked :
    let d : Debugger .x64 := new (.ofCode (fun _ => 0x90) [7])
    let r := d.setHardwareBreakpoint ⟨0, 0x1000, .DR0, .EXECUTE, .BYTE⟩
    let r' := r.1.clearHardwareBreakpoint .DR0
    r.2 = true ∧ r'.2 = true ∧ 0x1000 ∈ r'.1.hwBreakpoints ∧ ¬ r'.1.Held 0x1000 := by
  intro d r r'
  refine ⟨by decide +kernel, by decide +kernel, by decide +kernel, ?_⟩
  have hthread : r'.1.os.processThreads = [7] := by decide +kernel
  have hnone : ∀ j, r'.1.slots 7 j = none := by decide +kernel
  clear_value r'
  rintro ⟨u, hu, j, s, hs, -⟩
  rw [hthread, List.mem_singleton] at hu
  rw [hu, hnone j] at hs
  cases hs

end RoboDbg
