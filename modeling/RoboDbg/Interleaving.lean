import Mathlib.Data.Finset.Basic
import RoboDbg.ListedArmed

/-!
# Interleaved threads

Every thread that hits a breakpoint later reports a single step of its own, and
the events of different threads come in any order. The loop keeps one pending
restore for all threads, so the second of two overlapping hits replaces the
first one's address.
-/

namespace RoboDbg

open Runs Debugger

variable {b : Build}

/-- The debugger, and the threads between a hit and the step that follows it. -/
structure Threaded (b : Build) where
  dbg : Debugger b
  between : Finset DWORD

namespace Threaded

def after (cb : Callbacks b) (s : Threaded b) (ev : DebugEvent b) : Threaded b where
  dbg := (s.dbg.handleEvent cb ev).1
  between :=
    match ev with
    | .EXCEPTION e =>
      if e.ExceptionCode = EXCEPTION_SINGLE_STEP then s.between.erase e.dwThreadId
      else if e.ExceptionCode = EXCEPTION_BREAKPOINT ∧ e.ExceptionAddress ∈ s.dbg.breakpoints then
        insert e.dwThreadId s.between
      else s.between
    | _ => s.between

/-- A thread reports its step before its next breakpoint, and its handle can be opened. -/
def WellTimed (s : Threaded b) : DebugEvent b → Prop
  | .EXCEPTION e => s.dbg.os.fails (.openThread e.dwThreadId) = false ∧
      (e.ExceptionCode = EXCEPTION_BREAKPOINT → e.dwThreadId ∉ s.between)
  | _ => True

end Threaded

inductive ThreadStep (cb : Callbacks b) : Threaded b → Turn b → Threaded b → Prop
  | debuggee {s : Threaded b} {os : Os b} (h : s.dbg.Undisturbed os) :
      ThreadStep cb s (.debuggee os) { s with dbg := { s.dbg with os := os } }
  | event {s : Threaded b} (ev : DebugEvent b) (hloop : s.dbg.dbgLoop = true)
      (h : s.WellTimed ev) : ThreadStep cb s (.event ev) (s.after cb ev)

namespace Threaded

/-- Every disarmed entry is accounted for by a thread that has yet to step. -/
structure Balanced (s : Threaded b) : Prop where
  rearmable : s.dbg.Rearmable
  quiet : s.between = ∅ → s.dbg.AllArmed

theorem Balanced.exception {s : Threaded b} (h : s.Balanced) {e : ExceptionEvent b}
    (hopen : s.dbg.os.fails (.openThread e.dwThreadId) = false)
    (hund : s.dbg.Undivided (.event (.EXCEPTION e))) :
    (s.after restoring (.EXCEPTION e)).Balanced := by
  by_cases hss : e.ExceptionCode = EXCEPTION_SINGLE_STEP
  · have hs : Settled (s.dbg.handleException restoring e) := h.rearmable.singleStep hopen hss
    exact ⟨hs.rearmable, fun _ => hs.allArmed⟩
  · by_cases hhit : s.dbg.SoftwareHit e
    · refine ⟨h.rearmable.hit hhit (hund.safeHit hhit), fun hquiet => ?_⟩
      have hbetween : (s.after restoring (.EXCEPTION e)).between =
          insert e.dwThreadId s.between := by
        simp only [after, if_neg hss, if_pos (And.intro hhit.2.1 hhit.2.2)]
      rw [hbetween] at hquiet
      exact absurd hquiet (Finset.insert_ne_empty _ _)
    · have hsame : SameRestore s.dbg (s.dbg.handleException restoring e) :=
        handleException_sameRestore hhit hss
      refine ⟨hsame.rearmable h.rearmable, fun hquiet => hsame.allArmed (h.quiet ?_)⟩
      have hnot : ¬ (e.ExceptionCode = EXCEPTION_BREAKPOINT ∧
          e.ExceptionAddress ∈ s.dbg.breakpoints) := fun hc => hhit ⟨hopen, hc.1, hc.2⟩
      simpa only [after, if_neg hss, if_neg hnot] using hquiet

theorem Balanced.step {s s' : Threaded b} (h : s.Balanced) {turn : Turn b}
    (hstep : Restrict (ThreadStep restoring) (fun s => s.dbg.Undivided) s turn s') :
    s'.Balanced := by
  obtain ⟨hstep, hund⟩ := hstep
  cases hstep with
  | debuggee hu =>
    refine ⟨h.rearmable.debuggee hu, fun hquiet a ha => ?_⟩
    exact (hu.bytes a ha).trans (h.quiet hquiet a ha)
  | event ev _ htimed =>
    by_cases hev : ∃ e, ev = .EXCEPTION e
    · obtain ⟨e, rfl⟩ := hev
      exact h.exception htimed.1 hund
    · have hsame : SameRestore s.dbg (s.dbg.handleEvent restoring ev).1 :=
        handleEvent_sameRestore (fun e he => hev ⟨e, he⟩)
      refine ⟨hsame.rearmable h.rearmable, fun hquiet => hsame.allArmed (h.quiet ?_)⟩
      cases ev with
      | EXCEPTION e => exact absurd ⟨e, rfl⟩ hev
      | _ => exact hquiet

end Threaded

/-- With `RESTORE` answers, whenever no thread is between its hit and its step
every listed address is armed, provided no hit found the restore of another
address pending. -/
theorem quiet_armed {b : Build} {s s' : Threaded b} {turns : List (Turn b)}
    (hstart : s.dbg.AtRest)
    (hrun : Run (Restrict (ThreadStep restoring) (fun s => s.dbg.Undivided)) s turns s')
    (hquiet : s'.between = ∅) : s'.dbg.AllArmed := by
  have hbalanced : s.Balanced := ⟨hstart.rearmable, fun _ => hstart.allArmed⟩
  have hinv : s'.Balanced := hrun.invariant (fun _ _ _ h hstep => h.step hstep) hbalanced
  exact hinv.quiet hquiet

/-- Two threads hit the same breakpoint before either of them steps. -/
theorem quiet_armed_same_address :
    let s : Threaded .x64 := ⟨(new (.ofCode (fun _ => 0x90) [7, 8])).setBreakpoint 5, ∅⟩
    let s₁ := s.after restoring (.EXCEPTION ⟨EXCEPTION_BREAKPOINT, 5, 7, 0, 0⟩)
    let s₂ := s₁.after restoring (.EXCEPTION ⟨EXCEPTION_BREAKPOINT, 5, 8, 0, 0⟩)
    let s₃ := s₂.after restoring (.EXCEPTION ⟨EXCEPTION_SINGLE_STEP, 6, 8, 0, 0⟩)
    let s₄ := s₃.after restoring (.EXCEPTION ⟨EXCEPTION_SINGLE_STEP, 6, 7, 0, 0⟩)
    s₄.dbg.AllArmed := by
  intro s s₁ s₂ s₃ s₄
  have hstart : s.dbg.AtRest := (AtRest.ofCode (fun _ => 0x90) [7, 8]).setBreakpoint 5
  have h₁ : Restrict (ThreadStep restoring) (fun s => s.dbg.Undivided) s _ s₁ :=
    ⟨.event _ rfl ⟨rfl, by decide⟩, fun _ => Or.inl (by decide)⟩
  have h₂ : Restrict (ThreadStep restoring) (fun s => s.dbg.Undivided) s₁ _ s₂ :=
    ⟨.event _ (by decide) ⟨by decide, by decide⟩,
      fun _ => Or.inr ⟨by decide, by decide, by decide⟩⟩
  have h₃ : Restrict (ThreadStep restoring) (fun s => s.dbg.Undivided) s₂ _ s₃ :=
    ⟨.event _ (by decide) ⟨by decide, by decide⟩, fun h => absurd h.2.1 (by decide)⟩
  have h₄ : Restrict (ThreadStep restoring) (fun s => s.dbg.Undivided) s₃ _ s₄ :=
    ⟨.event _ (by decide) ⟨by decide, by decide⟩, fun h => absurd h.2.1 (by decide)⟩
  exact quiet_armed hstart (.cons h₁ (.cons h₂ (.cons h₃ (.cons h₄ (.nil _))))) (by decide)

/-- Thread 7 hits 5 and thread 8 hits 9 before either steps: 5 is never armed again. -/
theorem overlapping_hits_lose_breakpoint :
    let s : Threaded .x64 :=
      ⟨((new (.ofCode (fun _ => 0x90) [7, 8])).setBreakpoint 5).setBreakpoint 9, ∅⟩
    s.dbg.AtRest ∧ ∃ turns s', Run (ThreadStep restoring) s turns s' ∧ s'.between = ∅ ∧
      5 ∈ s'.dbg.breakpoints ∧ ¬ s'.dbg.Armed 5 := by
  intro s
  let s₁ := s.after restoring (.EXCEPTION ⟨EXCEPTION_BREAKPOINT, 5, 7, 0, 0⟩)
  let s₂ := s₁.after restoring (.EXCEPTION ⟨EXCEPTION_BREAKPOINT, 9, 8, 0, 0⟩)
  let s₃ := s₂.after restoring (.EXCEPTION ⟨EXCEPTION_SINGLE_STEP, 10, 8, 0, 0⟩)
  let s₄ := s₃.after restoring (.EXCEPTION ⟨EXCEPTION_SINGLE_STEP, 6, 7, 0, 0⟩)
  have h₁ : ThreadStep restoring s _ s₁ := .event _ rfl ⟨rfl, by decide⟩
  have h₂ : ThreadStep restoring s₁ _ s₂ := .event _ (by decide) ⟨by decide, by decide⟩
  have h₃ : ThreadStep restoring s₂ _ s₃ := .event _ (by decide) ⟨by decide, by decide⟩
  have h₄ : ThreadStep restoring s₃ _ s₄ := .event _ (by decide) ⟨by decide, by decide⟩
  refine ⟨((AtRest.ofCode (fun _ => 0x90) [7, 8]).setBreakpoint 5).setBreakpoint 9,
    _, s₄, .cons h₁ (.cons h₂ (.cons h₃ (.cons h₄ (.nil _)))), ?_, ?_, ?_⟩
  · decide
  · decide
  · unfold Armed
    decide

end RoboDbg
