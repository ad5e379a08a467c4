import Mathlib.Data.Finset.Basic
import RoboDbg.Foundation.Runs
import RoboDbg.Loop

/-!
# Threads that a process-wide hardware breakpoint covers

`setHardwareBreakpoint` writes the debug registers of the threads that are there
when it is called. A creation event lists the new thread and writes none of its
registers, so the breakpoint covers the process as long as no thread that came
later is alive.
-/

namespace RoboDbg

open Debugger Runs

variable {b : Build}

namespace Debugger

def Covers (d : Debugger b) (i : Fin 4) (x : Slot b) : Prop :=
  ∀ u ∈ d.os.processThreads, d.slots u i = some x

end Debugger

def HwBp.slot (bp : HwBp b) : Slot b := ⟨bp.address, bp.type, bp.len⟩

/-- No callback clears or sets slot `i`, or changes which threads there are. -/
structure Leaves (cb : Callbacks b) (i : Fin 4) : Prop where
  slots : ∀ c d u, (cb c d).1.slots u i = d.slots u i
  processThreads : ∀ c d, (cb c d).1.os.processThreads = d.os.processThreads

/-- The debugger after a process-wide set, and the live threads that came later or
that the call could not reach. -/
structure Covering (b : Build) where
  dbg : Debugger b
  late : Finset DWORD

def Debugger.covering (bp : HwBp b) (i : Fin 4) (d : Debugger b) : Covering b where
  dbg := (d.setHardwareBreakpoint bp).1
  late := d.os.processThreads.toFinset.filter
    (fun u => u ∉ d.openable ∧ d.slots u i ≠ some bp.slot)

def Covering.next (cb : Callbacks b) (s : Covering b) (os : Os b) (ev : DebugEvent b) :
    Covering b where
  dbg := (({ s.dbg with os := os } : Debugger b).handleEvent cb ev).1
  late := os.processThreads.toFinset.filter
    (fun u => u ∈ s.late ∨ u ∉ s.dbg.os.processThreads)

/-- Threads have come, with all slots disabled, and gone, and the creation or the exit of a
thread is handled. -/
inductive CoveringStep (cb : Callbacks b) (s : Covering b) :
    Os b × DebugEvent b → Covering b → Prop
  | create (os : Os b) (tid : DWORD) (base start : LPVOID b) (hloop : s.dbg.dbgLoop = true)
      (hdisabled : ∀ u ∈ os.processThreads, u ∉ s.dbg.os.processThreads →
        ∀ j, (os.context u).slot j = none)
      (hkept : ∀ u ∈ os.processThreads, u ∈ s.dbg.os.processThreads →
        (os.context u).slot = (s.dbg.os.context u).slot) :
      CoveringStep cb s (os, .CREATE_THREAD tid base start)
        (s.next cb os (.CREATE_THREAD tid base start))
  | exit (os : Os b) (tid : DWORD) (hloop : s.dbg.dbgLoop = true)
      (hgone : tid ∉ os.processThreads)
      (hdisabled : ∀ u ∈ os.processThreads, u ∉ s.dbg.os.processThreads →
        ∀ j, (os.context u).slot j = none)
      (hkept : ∀ u ∈ os.processThreads, u ∈ s.dbg.os.processThreads →
        (os.context u).slot = (s.dbg.os.context u).slot) :
      CoveringStep cb s (os, .EXIT_THREAD tid) (s.next cb os (.EXIT_THREAD tid))

namespace Covering

variable {cb : Callbacks b} {s s' : Covering b} {i : Fin 4} {x : Slot b}

/-- A live thread has the slot exactly if it is not a late one. -/
structure Accounted (s : Covering b) (i : Fin 4) (x : Slot b) : Prop where
  covered : ∀ u ∈ s.dbg.os.processThreads, s.dbg.slots u i = some x ↔ u ∉ s.late
  alive : ∀ u ∈ s.late, u ∈ s.dbg.os.processThreads

theorem Accounted.covers_iff (h : s.Accounted i x) : s.dbg.Covers i x ↔ s.late = ∅ := by
  rw [Finset.eq_empty_iff_forall_notMem]
  constructor
  · intro hcovers u hu
    exact (h.covered u (h.alive u hu)).mp (hcovers u (h.alive u hu)) hu
  · intro hnone u hu
    exact (h.covered u hu).mpr (hnone u)

theorem covering_accounted {d : Debugger b} {bp : HwBp b} (hreg : bp.reg = .ofSlot i)
    (hok : (d.setHardwareBreakpoint bp).2 = true) : (d.covering bp i).Accounted i bp.slot := by
  have hputs := setHardwareBreakpoint_puts hreg hok
  have hthreads : (d.covering bp i).dbg.os.processThreads = d.os.processThreads :=
    hputs.frame.processThreads
  constructor
  · intro u hu
    rw [hthreads] at hu
    have hslots : (d.covering bp i).dbg.slots u =
        if u ∈ d.openable then Function.update (d.slots u) i (some bp.slot) else d.slots u :=
      hputs.slots u
    rw [hslots]
    simp only [covering, Finset.mem_filter, List.mem_toFinset, hu, true_and, ne_eq, not_and,
      not_not]
    by_cases hopen : u ∈ d.openable
    · simp [hopen]
    · simp [hopen]
  · intro u hu
    rw [hthreads]
    exact List.mem_toFinset.mp (Finset.mem_filter.mp hu).1

def Unnoticed (cb : Callbacks b) (i : Fin 4) (ev : DebugEvent b) : Prop :=
  ∀ d : Debugger b, (d.handleEvent cb ev).1.os.processThreads = d.os.processThreads ∧
    ∀ u, (d.handleEvent cb ev).1.slots u i = d.slots u i

theorem create_unnoticed (hleaves : Leaves cb i) (tid : DWORD) (base start : LPVOID b) :
    Unnoticed cb i (.CREATE_THREAD tid base start) := by
  intro d
  unfold handleEvent
  cases hf : d.os.fails (.openThread tid) with
  | true =>
    simp only [Os.openThread, hf, if_true]
    exact ⟨trivial, fun _ => trivial⟩
  | false =>
    simp only [Os.openThread, hf, Bool.false_eq_true, if_false]
    exact ⟨hleaves.processThreads _ _, fun u => hleaves.slots _ _ u⟩

theorem exit_unnoticed (hleaves : Leaves cb i) (tid : DWORD) :
    Unnoticed cb i (.EXIT_THREAD tid) :=
  fun _ => ⟨hleaves.processThreads _ _, fun u => hleaves.slots _ _ u⟩

theorem Accounted.next (h : s.Accounted i x) {os : Os b} {ev : DebugEvent b}
    (hev : Unnoticed cb i ev)
    (hdisabled : ∀ u ∈ os.processThreads, u ∉ s.dbg.os.processThreads →
      ∀ j, (os.context u).slot j = none)
    (hkept : ∀ u ∈ os.processThreads, u ∈ s.dbg.os.processThreads →
      (os.context u).slot = (s.dbg.os.context u).slot) : (s.next cb os ev).Accounted i x := by
  obtain ⟨hprocess, hslots⟩ := hev { s.dbg with os := os }
  constructor
  · intro u hu
    have hlive : u ∈ os.processThreads := by
      rw [← hprocess]
      exact hu
    have hlate : u ∈ (s.next cb os ev).late ↔ u ∈ s.late ∨ u ∉ s.dbg.os.processThreads :=
      Finset.mem_filter.trans (and_iff_right (List.mem_toFinset.mpr hlive))
    have hslot : (s.next cb os ev).dbg.slots u i = (os.context u).slot i := hslots u
    rw [hslot, hlate]
    by_cases hold : u ∈ s.dbg.os.processThreads
    · rw [hkept u hlive hold, or_iff_left (fun hnew => hnew hold)]
      exact h.covered u hold
    · rw [hdisabled u hlive hold]
      exact iff_of_false (fun hx => by cases hx) (fun hno => hno (Or.inr hold))
  · intro u hu
    have hlive := List.mem_toFinset.mp (Finset.mem_filter.mp hu).1
    rw [← hprocess] at hlive
    exact hlive

theorem Accounted.step (h : s.Accounted i x) (hleaves : Leaves cb i) {turn : Os b × DebugEvent b}
    (hstep : CoveringStep cb s turn s') : s'.Accounted i x := by
  cases hstep with
  | create os tid base start _ hdisabled hkept =>
    exact h.next (create_unnoticed hleaves tid base start) hdisabled hkept
  | exit os tid _ _ hdisabled hkept =>
    exact h.next (exit_unnoticed hleaves tid) hdisabled hkept

end Covering

open Covering

/-- After a process-wide set that returned true and any creation and exit events: every
live thread has the slot exactly if no thread created since is alive, nor one that the
call could not list and that had the slot not set already. -/
theorem covers_iff_no_late {cb : Callbacks b} {d : Debugger b} {bp : HwBp b} {i : Fin 4}
    {s : Covering b} {turns : List (Os b × DebugEvent b)} (hleaves : Leaves cb i)
    (hreg : bp.reg = .ofSlot i) (hok : (d.setHardwareBreakpoint bp).2 = true)
    (hrun : Run (CoveringStep cb) (d.covering bp i) turns s) :
    s.dbg.Covers i bp.slot ↔ s.late = ∅ := by
  have hkeep (s : Covering b) (turn : Os b × DebugEvent b) (s' : Covering b)
      (h : s.Accounted i bp.slot) (hstep : CoveringStep cb s turn s') :
      s'.Accounted i bp.slot := h.step hleaves hstep
  exact (hrun.invariant hkeep (covering_accounted hreg hok)).covers_iff

theorem Leaves.answering (ans : Call b → Debugger b → BreakpointAction) (i : Fin 4) :
    Leaves (answering ans) i := ⟨fun _ _ _ => rfl, fun _ _ => rfl⟩

def Covering.withThreads (s : Covering b) (tids : List DWORD) : Os b :=
  { s.dbg.os with snapshot := tids.map (⟨s.dbg.os.processId, ·⟩) }

theorem Covering.processThreads_withThreads (s : Covering b) (tids : List DWORD) :
    (s.withThreads tids).processThreads = tids := by
  simp [withThreads, Os.processThreads, List.filter_map, Function.comp_def]

theorem Covering.context_withThreads (s : Covering b) (tids : List DWORD) :
    (s.withThreads tids).context = s.dbg.os.context := rfl

theorem CoveringStep.comes {cb : Callbacks b} {s : Covering b} {tids : List DWORD} (tid : DWORD)
    (hloop : s.dbg.dbgLoop = true)
    (hdisabled : ∀ u ∈ tids, u ∉ s.dbg.os.processThreads →
      ∀ j, (s.dbg.os.context u).slot j = none) :
    CoveringStep cb s (s.withThreads tids, .CREATE_THREAD tid 0 0)
      (s.next cb (s.withThreads tids) (.CREATE_THREAD tid 0 0)) := by
  refine .create _ _ _ _ hloop (fun u hu hnew => ?_) (fun u _ _ => ?_)
  · rw [s.processThreads_withThreads] at hu
    exact hdisabled u hu hnew
  · rw [s.context_withThreads]

theorem CoveringStep.goes {cb : Callbacks b} {s : Covering b} {tid : DWORD} {tids : List DWORD}
    (hloop : s.dbg.dbgLoop = true) (hgone : tid ∉ tids)
    (hbefore : ∀ u ∈ tids, u ∈ s.dbg.os.processThreads) :
    CoveringStep cb s (s.withThreads tids, .EXIT_THREAD tid)
      (s.next cb (s.withThreads tids) (.EXIT_THREAD tid)) := by
  refine .exit _ _ hloop ?_ (fun u hu hnew => ?_) (fun u _ _ => ?_)
  · rw [s.processThreads_withThreads]
    exact hgone
  · rw [s.processThreads_withThreads] at hu
    exact absurd (hbefore u hu) hnew
  · rw [s.context_withThreads]

theorem CoveringStep.comes_nine (cb : Callbacks .x64) :
    let d : Debugger .x64 := new (.ofCode (fun _ => 0x90) [7])
    let s := d.covering ⟨0, 0x1000, .DR0, .EXECUTE, .BYTE⟩ 0
    CoveringStep cb s (s.withThreads [9, 7], .CREATE_THREAD 9 0 0)
      (s.next cb (s.withThreads [9, 7]) (.CREATE_THREAD 9 0 0)) := by
  intro d s
  refine .comes 9 (by decide +kernel) (fun u hu hnew => ?_)
  rcases List.mem_cons.mp hu with rfl | hu
  · decide +kernel
  · obtain rfl := List.mem_singleton.mp hu
    exact absurd (by decide +kernel) hnew

/-- Thread 9 is created and ends again. -/
theorem covers_iff_no_late_ended :
    let cb : Callbacks .x64 := answering (fun _ _ => .RESTORE)
    let d : Debugger .x64 := new (.ofCode (fun _ => 0x90) [7])
    let s := d.covering ⟨0, 0x1000, .DR0, .EXECUTE, .BYTE⟩ 0
    let s₁ := s.next cb (s.withThreads [9, 7]) (.CREATE_THREAD 9 0 0)
    (s₁.next cb (s₁.withThreads [7]) (.EXIT_THREAD 9)).dbg.Covers 0
      ⟨0x1000, .EXECUTE, .BYTE⟩ := by
  intro cb d s s₁
  have hcreate : CoveringStep cb s (s.withThreads [9, 7], .CREATE_THREAD 9 0 0) s₁ :=
    .comes_nine cb
  have hbetween : s₁.dbg.os.processThreads = [9, 7] := by
    have hsame := (create_unnoticed (.answering (fun _ _ => .RESTORE) 0) 9 0 0
      { s.dbg with os := s.withThreads [9, 7] }).1
    exact hsame.trans (s.processThreads_withThreads [9, 7])
  have hexit : CoveringStep cb s₁ (s₁.withThreads [7], .EXIT_THREAD 9)
      (s₁.next cb (s₁.withThreads [7]) (.EXIT_THREAD 9)) := by
    refine .goes (by decide +kernel) (by decide) (fun u hu => ?_)
    rw [hbetween]
    exact List.mem_cons_of_mem 9 hu
  refine (covers_iff_no_late (.answering _ 0) rfl (by decide +kernel)
    (.cons hcreate (.cons hexit (.nil _)))).mpr ?_
  rw [Finset.eq_empty_iff_forall_notMem]
  intro u hu
  obtain ⟨hlive, hlate⟩ := Finset.mem_filter.mp hu
  rw [s₁.processThreads_withThreads, List.mem_toFinset, List.mem_singleton] at hlive
  rw [hbetween, hlive] at hlate
  revert hlate
  decide +kernel

/-- Thread 9 is created after the call and lacks the breakpoint. -/
theorem later_thread_not_covered :
    let cb : Callbacks .x64 := answering (fun _ _ => .RESTORE)
    let d : Debugger .x64 := new (.ofCode (fun _ => 0x90) [7])
    let bp : HwBp .x64 := ⟨0, 0x1000, .DR0, .EXECUTE, .BYTE⟩
    (d.setHardwareBreakpoint bp).2 = true ∧
      ∃ turns s, Run (CoveringStep cb) (d.covering bp 0) turns s ∧ ¬ s.dbg.Covers 0 bp.slot := by
  intro cb d bp
  let s := d.covering bp 0
  have hcreate : CoveringStep cb s (s.withThreads [9, 7], .CREATE_THREAD 9 0 0)
      (s.next cb (s.withThreads [9, 7]) (.CREATE_THREAD 9 0 0)) := .comes_nine cb
  refine ⟨by decide +kernel, _, _, .single hcreate, fun hcovers => ?_⟩
  have hslot := hcovers 9 (by decide +kernel)
  revert hslot
  decide +kernel

end RoboDbg
