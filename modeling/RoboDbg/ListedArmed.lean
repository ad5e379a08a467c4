import RoboDbg.PendingRestore

/-!
# Listed breakpoints are armed

In every run in which each software hit is safe, the table of breakpoints is the
set of armed addresses whenever no step is pending. A hit answered with
`SINGLE_STEP` records no address to restore and leaves its entry disarmed.
-/

namespace RoboDbg

open Runs

variable {b : Build}

namespace Debugger

structure AtRest (d : Debugger b) : Prop where
  accessible : d.os.memory.Accessible
  allArmed : d.AllArmed
  needToRestoreBreakpoint : d.needToRestoreBreakpoint = false
  restoreHwBP : d.restoreHwBP = false

def SafeTurn (ans : Call b → Debugger b → BreakpointAction) (d : Debugger b) : Turn b → Prop
  | .debuggee _ => True
  | .event ev => d.SafeEvent ans ev

/-- The hit of a listed address does not find the restore of another address pending. -/
def Undivided (d : Debugger b) : Turn b → Prop
  | .event (.EXCEPTION e) => d.SoftwareHit e →
      d.needToRestoreBreakpoint = false ∨ d.Rearming e.ExceptionAddress
  | _ => True

def restoring : Callbacks b := answering fun _ _ => .RESTORE

variable {d d' : Debugger b} {ans : Call b → Debugger b → BreakpointAction}

theorem AtRest.rearmable (h : AtRest d) : Rearmable d := by
  refine rearmable_of_allArmed h.accessible h.allArmed (fun hhw => ?_)
  rw [h.restoreHwBP] at hhw
  cases hhw

theorem AtRest.of_same (h : AtRest d) (hs : SameRestore d d') : AtRest d' := by
  refine ⟨?_, hs.allArmed h.allArmed, hs.needToRestoreBreakpoint.trans h.needToRestoreBreakpoint,
    hs.restoreHwBP.trans h.restoreHwBP⟩
  rw [hs.memory]
  exact h.accessible

theorem AtRest.new {os : Os b} (h : os.memory.Accessible) : AtRest (new os) := by
  refine ⟨h, fun a ha => ?_, rfl, rfl⟩
  exact absurd ha Std.TreeMap.not_mem_emptyc

theorem AtRest.ofCode (code : LPVOID b → BYTE) (tids : List DWORD) :
    AtRest (Debugger.new (.ofCode code tids)) :=
  .new (fun _ => ⟨rfl, rfl⟩)

theorem AtRest.setBreakpoint (h : AtRest d) (a : LPVOID b) : AtRest (d.setBreakpoint a) := by
  have hf := setBreakpoint_frame a d
  refine ⟨hf.accessible h.accessible, ?_, ?_, ?_⟩
  · exact setBreakpoint_allArmed h.accessible (fun x hx => Or.inr (h.allArmed x hx))
  · rw [hf.rest]
    exact h.needToRestoreBreakpoint
  · rw [hf.rest]
    exact h.restoreHwBP

/-- A `RESTORE` answer records the address, so only an overlap makes a hit unsafe. -/
theorem Undivided.safeHit {e : ExceptionEvent b} (h : d.Undivided (.event (.EXCEPTION e)))
    (hhit : d.SoftwareHit e) : d.SafeHit e.ExceptionAddress .RESTORE := by
  rcases h hhit with hneed | hre
  · exact Or.inl ⟨hneed, by decide⟩
  · exact Or.inr hre

theorem Undivided.safeEvent {ev : DebugEvent b} (h : d.Undivided (.event ev)) :
    d.SafeEvent (fun _ _ => .RESTORE) ev := by
  cases ev with
  | EXCEPTION e => exact fun hhit => h.safeHit hhit
  | _ => trivial

theorem Rearmable.step (h : Rearmable d) {turn : Turn b}
    (hstep : Restrict (LoopStep Undisturbed (answering ans)) (SafeTurn ans) d turn d') :
    Rearmable d' := by
  obtain ⟨hstep, hsafe⟩ := hstep
  cases hstep with
  | debuggee hu => exact h.debuggee hu
  | event ev _ => exact h.handleEvent hsafe

end Debugger

open Debugger

/-- Whatever the answers and whatever events arrive, in every state with no step
pending every listed address is armed, provided that each software hit found no
other restore pending and was not answered with `SINGLE_STEP`. -/
theorem listed_armed {b : Build} {ans : Call b → Debugger b → BreakpointAction}
    {d d' : Debugger b} {turns : List (Turn b)} (hstart : d.AtRest)
    (hrun : Run (Restrict (LoopStep Undisturbed (answering ans)) (SafeTurn ans)) d turns d')
    (hidle : d'.stepping = false) : d'.AllArmed := by
  have hinv : d'.Rearmable := hrun.invariant (fun _ _ _ h hstep => h.step hstep) hstart.rearmable
  exact hinv.idle hidle

theorem listed_armed_two_hits :
    let ans : Call .x64 → Debugger .x64 → BreakpointAction := fun c _ =>
      match c with
      | .onBreakpoint a _ => if a = 5 then .RESTORE else .BREAK
      | _ => .BREAK
    let d : Debugger .x64 := ((new (.ofCode (fun _ => 0x90) [7])).setBreakpoint 5).setBreakpoint 9
    let d₁ := (d.handleEvent (answering ans) (.EXCEPTION ⟨EXCEPTION_BREAKPOINT, 5, 7, 0, 0⟩)).1
    let d₂ := (d₁.handleEvent (answering ans) (.EXCEPTION ⟨EXCEPTION_SINGLE_STEP, 6, 7, 0, 0⟩)).1
    let d₃ := (d₂.handleEvent (answering ans) (.EXCEPTION ⟨EXCEPTION_BREAKPOINT, 9, 7, 0, 0⟩)).1
    d₃.AllArmed := by
  intro ans d d₁ d₂ d₃
  have hstart : d.AtRest := ((AtRest.ofCode _ _).setBreakpoint 5).setBreakpoint 9
  have h₁ : Restrict (LoopStep Undisturbed (answering ans)) (SafeTurn ans) d _ d₁ :=
    ⟨.event _ rfl, fun _ => Or.inl ⟨by decide, by decide⟩⟩
  have h₂ : Restrict (LoopStep Undisturbed (answering ans)) (SafeTurn ans) d₁ _ d₂ :=
    ⟨.event _ (by decide), fun h => absurd h.2.1 (by decide)⟩
  have h₃ : Restrict (LoopStep Undisturbed (answering ans)) (SafeTurn ans) d₂ _ d₃ :=
    ⟨.event _ (by decide), fun _ => Or.inl ⟨by decide, by decide⟩⟩
  exact listed_armed hstart (.cons h₁ (.cons h₂ (.cons h₃ (.nil _)))) (by decide)

/-- One hit answered with `SINGLE_STEP` and the step after it. -/
theorem single_step_leaves_disarmed :
    let d : Debugger .x64 := (new (.ofCode (fun _ => 0x90) [7])).setBreakpoint 5
    let d' := loop (answering fun _ _ => .SINGLE_STEP)
      [(id, .EXCEPTION ⟨EXCEPTION_BREAKPOINT, 5, 7, 0, 0⟩),
        (id, .EXCEPTION ⟨EXCEPTION_SINGLE_STEP, 6, 7, 0, 0⟩)] d
    d.AtRest ∧ d'.stepping = false ∧ 5 ∈ d'.breakpoints ∧ ¬ d'.Armed 5 := by
  refine ⟨(AtRest.ofCode _ _).setBreakpoint 5, ?_, ?_, ?_⟩
  · decide
  · decide
  · unfold Armed
    decide

end RoboDbg
