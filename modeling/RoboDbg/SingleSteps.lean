import RoboDbg.Delivery
import RoboDbg.PendingRestore

/-!
# Steps asked for by `SINGLE_STEP`

A callback that answers `SINGLE_STEP` asks for the next trap of its thread. The loop
reports a trap as a step only if `stepping` is set and `lastBpType` holds that answer,
and the answer to a hit does not store it there: what the member held when the object
was made decides, until some callback answers `RESTORE`.
-/

namespace RoboDbg

open Runs

variable {b : Build}

namespace Debugger

def answers (d : Debugger b) : List BreakpointAction :=
  (d.trace.filter (fun c => c.1.returnsAction)).map Prod.snd

def newCalls (d d' : Debugger b) : List (Call b) :=
  (d'.trace.drop d.trace.length).map Prod.fst

/-- Handling the trap reports it, with its address and a handle of its thread. -/
def TrapDelivered (d d' : Debugger b) (e : ExceptionEvent b) : Prop :=
  newCalls d d' = [.onBreakpoint e.ExceptionAddress d.os.handles.next]

instance (d d' : Debugger b) (e : ExceptionEvent b) : Decidable (TrapDelivered d d' e) :=
  inferInstanceAs (Decidable (_ = _))

/-- The member is private, so a callback of a subclass cannot write it. -/
def KeepsLastBpType (cb : Callbacks b) : Prop := ∀ c d, (cb c d).1.lastBpType = d.lastBpType

end Debugger

/-- The debugger, the threads that were told to step and have not trapped since, and
the traps of such threads that were not reported. -/
structure Trapping (b : Build) where
  dbg : Debugger b
  awaited : Finset DWORD
  missed : List (ExceptionEvent b)

namespace Trapping

def start (d : Debugger b) : Trapping b := ⟨d, ∅, []⟩

/-- An exception is handled: an answer `SINGLE_STEP` awaits a trap of its thread, a trap
ends the waiting. -/
def exception (cb : Callbacks b) (e : ExceptionEvent b) (s : Trapping b) : Trapping b :=
  let d' := s.dbg.handleException cb e
  let trap := e.ExceptionCode = EXCEPTION_SINGLE_STEP
  { dbg := d'
    awaited :=
      if d'.answers = s.dbg.answers ++ [.SINGLE_STEP] then insert e.dwThreadId s.awaited
      else if trap then s.awaited.erase e.dwThreadId
      else s.awaited
    missed :=
      if trap ∧ e.dwThreadId ∈ s.awaited ∧ ¬ s.dbg.TrapDelivered d' e then s.missed ++ [e]
      else s.missed }

def after (cb : Callbacks b) (s : Trapping b) : Turn b → Trapping b
  | .debuggee os => { s with dbg := { s.dbg with os := os } }
  | .event (.EXCEPTION e) => s.exception cb e
  | .event ev => { s with dbg := (s.dbg.handleEvent cb ev).1 }

end Trapping

/-- A turn of the loop; between events the debuggee may do anything. -/
def TrappingStep (cb : Callbacks b) (s : Trapping b) (turn : Turn b) (s' : Trapping b) : Prop :=
  s.dbg.dbgLoop = true ∧ s' = s.after cb turn

/-- A trap of a thread that was told to step finds `stepping` set, the first value of
`lastBpType` was that of `SINGLE_STEP`, and no callback has answered `RESTORE`. -/
def Trapping.Reported (lastBpType : ℤ) (s : Trapping b) : Turn b → Prop
  | .event (.EXCEPTION e) => e.ExceptionCode = EXCEPTION_SINGLE_STEP → e.dwThreadId ∈ s.awaited →
      s.dbg.os.fails (.openThread e.dwThreadId) = false ∧ s.dbg.stepping = true ∧
        lastBpType = BreakpointAction.SINGLE_STEP.toInt ∧ .RESTORE ∉ s.dbg.answers
  | _ => True

namespace Debugger

variable {cb : Callbacks b} {d d' d'' : Debugger b} {e : ExceptionEvent b} {hThread : HANDLE}

/-! ## What the answers do to `lastBpType` -/

theorem answers_congr (h : d'.trace = d.trace) : d'.answers = d.answers := by
  rw [answers, answers, h]

theorem answers_call (c : Call b) : (d.call cb c).1.answers =
    d.answers ++ if c.returnsAction then [(d.call cb c).2] else [] := by
  cases hc : c.returnsAction <;> simp [answers, call, hc]

/-- New answers are appended, and `lastBpType` keeps the value of `SINGLE_STEP` as long
as none of them is `RESTORE`. -/
def Heard (d d' : Debugger b) : Prop :=
  ∃ new, d'.answers = d.answers ++ new ∧
    (d'.lastBpType = BreakpointAction.SINGLE_STEP.toInt ↔
      d.lastBpType = BreakpointAction.SINGLE_STEP.toInt ∧ .RESTORE ∉ new)

theorem Heard.of_same (htrace : d'.trace = d.trace) (hlast : d'.lastBpType = d.lastBpType) :
    Heard d d' := by
  refine ⟨[], ?_, ?_⟩
  · rw [List.append_nil]
    exact answers_congr htrace
  · rw [hlast]
    exact (and_iff_left List.not_mem_nil).symm

theorem Heard.trans (h : Heard d d') (h' : Heard d' d'') : Heard d d'' := by
  obtain ⟨new, hnew, hlast⟩ := h
  obtain ⟨new', hnew', hlast'⟩ := h'
  refine ⟨new ++ new', ?_, ?_⟩
  · rw [hnew', hnew, List.append_assoc]
  · rw [hlast', hlast, and_assoc, List.mem_append, not_or]

theorem Heard.call (hcb : KeepsLastBpType cb) {c : Call b} (hc : c.returnsAction = false) :
    Heard d (d.call cb c).1 := by
  refine ⟨[], ?_, ?_⟩
  · rw [answers_call, hc]
    rfl
  · have hlast : (d.call cb c).1.lastBpType = d.lastBpType := hcb c d
    rw [hlast]
    exact (and_iff_left List.not_mem_nil).symm

theorem Heard.answered (hcb : KeepsLastBpType cb) {c : Call b} (hc : c.returnsAction = true)
    (htrace : d'.trace = (d.call cb c).1.trace)
    (hlast : d'.lastBpType = BreakpointAction.SINGLE_STEP.toInt ↔
      (d.call cb c).1.lastBpType = BreakpointAction.SINGLE_STEP.toInt ∧
        (d.call cb c).2 ≠ .RESTORE) : Heard d d' := by
  refine ⟨[(d.call cb c).2], ?_, ?_⟩
  · rw [answers_congr htrace, answers_call, hc]
    rfl
  · have hsame : (d.call cb c).1.lastBpType = d.lastBpType := hcb c d
    rw [hlast, hsame, List.mem_singleton, ne_comm]

theorem restorePending_lastBpType (d : Debugger b) :
    d.restorePending.lastBpType = d.lastBpType := by
  unfold restorePending
  split_ifs
  · exact (setHardwareBreakpoint_frame _ _).sameRestore.lastBpType
  · exact (congrArg lastBpType (setBreakpoint_frame d.bpAddrToRestore d).rest :)
  · rfl

theorem restore_ne_singleStep :
    BreakpointAction.RESTORE.toInt ≠ BreakpointAction.SINGLE_STEP.toInt := by decide

theorem answerBreakpoint_lastBpType (a : LPVOID b) (bpType : BreakpointAction) :
    (d.answerBreakpoint a hThread bpType).lastBpType = BreakpointAction.SINGLE_STEP.toInt ↔
      d.lastBpType = BreakpointAction.SINGLE_STEP.toInt ∧ bpType ≠ .RESTORE := by
  rw [(answerBreakpoint_frame a hThread bpType d).sameRestore.lastBpType]
  cases bpType with
  | BREAK => exact (and_iff_left (by decide)).symm
  | RESTORE => exact iff_of_false restore_ne_singleStep (fun h => h.2 rfl)
  | SINGLE_STEP => exact (and_iff_left (by decide)).symm

theorem answerStep_lastBpType (a : LPVOID b) (bpType : BreakpointAction)
    (hlast : d.lastBpType = BreakpointAction.SINGLE_STEP.toInt) :
    (d.answerStep a hThread bpType).lastBpType = BreakpointAction.SINGLE_STEP.toInt ↔
      d.lastBpType = BreakpointAction.SINGLE_STEP.toInt ∧ bpType ≠ .RESTORE := by
  rw [(answerStep_frame a hThread bpType d).sameRestore.lastBpType]
  cases bpType with
  | BREAK => exact (and_iff_left (by decide)).symm
  | RESTORE => exact iff_of_false restore_ne_singleStep (fun h => h.2 rfl)
  | SINGLE_STEP => exact iff_of_true rfl ⟨hlast, by decide⟩

theorem answerHardware_lastBpType (a : LPVOID b) (reg : DRReg) (bpType : BreakpointAction) :
    (d.answerHardware a hThread reg bpType).lastBpType = BreakpointAction.SINGLE_STEP.toInt ↔
      d.lastBpType = BreakpointAction.SINGLE_STEP.toInt ∧ bpType ≠ .RESTORE := by
  cases bpType with
  | BREAK =>
    have hsame := (clearHardwareBreakpoint_frame reg d).sameRestore.lastBpType
    rw [answerHardware, hsame]
    exact (and_iff_left (by decide)).symm
  | SINGLE_STEP =>
    have hclear := (clearHardwareBreakpoint_frame reg
      { d.enableSingleStep hThread with stepping := true }).sameRestore.lastBpType
    have hsame := hclear.trans (enableSingleStep_frame hThread d).sameRestore.lastBpType
    rw [answerHardware, hsame]
    exact (and_iff_left (by decide)).symm
  | RESTORE =>
    let d₁ := d.afterHardware a hThread reg
    have hclear := (clearHardwareBreakpointOnThread_frame hThread reg d₁).sameRestore.lastBpType
    have hcontrol := (enableSingleStep_frame hThread
      (d₁.clearHardwareBreakpointOnThread hThread reg).1).sameRestore.lastBpType
    rw [answerHardware_restore]
    refine iff_of_false (fun h => restore_ne_singleStep ?_) (fun h => h.2 rfl)
    exact (hcontrol.trans hclear).symm.trans h

theorem Heard.handleBreakpoint (hcb : KeepsLastBpType cb) (a : LPVOID b) :
    Heard d (d.handleBreakpoint cb a hThread) := by
  cases hx : d.breakpoints[a]? with
  | none =>
    rw [handleBreakpoint_of_not_listed hx]
    exact .of_same rfl rfl
  | some x =>
    rw [handleBreakpoint_of_listed hx]
    let d₁ := (d.restoreBreakpoint a).decrementIP hThread
    have hcontrol := decrementIP_frame hThread (d.restoreBreakpoint a)
    have hlast : (d.restoreBreakpoint a).lastBpType = d.lastBpType := by
      rw [(restoreBreakpoint_frame a d).rest]
    have hfirst : Heard d d₁ :=
      .of_same (hcontrol.trace.trans (restoreBreakpoint_frame a d).trace)
        (hcontrol.sameRestore.lastBpType.trans hlast)
    refine hfirst.trans (.answered hcb (c := .onBreakpoint a hThread) rfl ?_ ?_)
    · rw [(answerBreakpoint_frame a hThread _ _).trace]
      cases (d₁.call cb (.onBreakpoint a hThread)).2 <;> rfl
    · exact answerBreakpoint_lastBpType a _

theorem Heard.handleStep (hcb : KeepsLastBpType cb) (a : LPVOID b) :
    Heard d (d.handleStep cb a hThread) := by
  have hpending : Heard d d.restorePending :=
    .of_same (restorePending_trace d) (restorePending_lastBpType d)
  refine hpending.trans ?_
  simp only [Debugger.handleStep]
  split_ifs with hlast
  · refine .answered hcb (c := .onBreakpoint a hThread) rfl (answerStep_trace a hThread _) ?_
    exact answerStep_lastBpType a _ ((hcb _ _).trans hlast)
  · exact .of_same rfl rfl

theorem Heard.handleHardware (hcb : KeepsLastBpType cb) (code : DWORD) (a : LPVOID b) :
    Heard d (d.handleHardware cb code a hThread) := by
  simp only [Debugger.handleHardware]
  split_ifs
  · refine .answered hcb (c := .onHardwareBreakpoint a hThread (d.isHardwareBreakpointAt a)) rfl
      (answerHardware_trace a hThread _ _) ?_
    exact answerHardware_lastBpType a _ _
  · exact .call hcb rfl

theorem Heard.handleException (hcb : KeepsLastBpType cb) (e : ExceptionEvent b) :
    Heard d (d.handleException cb e) := by
  cases ho : d.os.fails (.openThread e.dwThreadId) with
  | true =>
    rw [handleException_of_refused ho]
    exact .of_same rfl rfl
  | false =>
    rw [handleException_of_opened ho]
    have hopened : Heard d (d.opened e.dwThreadId) := .of_same rfl rfl
    have hclosing : ∀ d' : Debugger b, Heard d' (d'.closing d.os.handles.next) :=
      fun _ => .of_same rfl rfl
    refine hopened.trans (.trans ?_ (hclosing _))
    apply dispatch_elim
    case breakpoint => exact fun _ => .handleBreakpoint hcb _
    case step => exact fun _ _ => .handleStep hcb _
    case hardware => exact fun _ _ => .handleHardware hcb _ _
    case other => exact fun _ hc => .call hcb hc

theorem Heard.handleEvent (hcb : KeepsLastBpType cb) (ev : DebugEvent b) :
    Heard d (d.handleEvent cb ev).1 := by
  apply handleEvent_elim
  case exception => exact fun e _ => .handleException hcb e
  case refused => exact .of_same rfl rfl
  case call => exact fun _ hc => .call hcb hc
  case started =>
    intro base c hc
    have hbase : Heard d { d with baseImageBase := base } := .of_same rfl rfl
    exact hbase.trans (.call hcb hc)
  case created =>
    intro tid c thread hc
    have hopened : Heard d (d.opened tid) := .of_same rfl rfl
    exact (hopened.trans (.call hcb hc)).trans (.of_same rfl rfl)

/-! ## Which traps are reported -/

theorem newCalls_append {new : List (Call b × BreakpointAction)} (h : d'.trace = d.trace ++ new) :
    newCalls d d' = new.map Prod.fst := by
  rw [newCalls, h, List.drop_left]

theorem newCalls_of_same (h : d'.trace = d.trace) : newCalls d d' = [] := by
  rw [newCalls, h, List.drop_length, List.map_nil]

theorem handleStep_trace (cb : Callbacks b) (d : Debugger b) (a : LPVOID b) (hThread : HANDLE) :
    (d.handleStep cb a hThread).trace = d.trace ++
      if d.lastBpType = BreakpointAction.SINGLE_STEP.toInt then
        [(.onBreakpoint a hThread, (d.restorePending.call cb (.onBreakpoint a hThread)).2)]
      else [] := by
  rw [trace_handleStep, restorePending_lastBpType]

theorem handleHardware_trace (cb : Callbacks b) (d : Debugger b) (code : DWORD) (a : LPVOID b)
    (hThread : HANDLE) :
    ∃ c x, (d.handleHardware cb code a hThread).trace = d.trace ++ [(c, x)] ∧
      ∀ a' h', c ≠ .onBreakpoint a' h' := by
  rw [trace_handleHardware]
  split_ifs
  · exact ⟨_, _, rfl, fun _ _ h => by cases h⟩
  · exact ⟨_, _, rfl, fun _ _ h => by cases h⟩

theorem trapDelivered_iff (hcode : e.ExceptionCode = EXCEPTION_SINGLE_STEP) :
    TrapDelivered d (d.handleException cb e) e ↔
      d.os.fails (.openThread e.dwThreadId) = false ∧ d.stepping = true ∧
        d.lastBpType = BreakpointAction.SINGLE_STEP.toInt := by
  unfold TrapDelivered
  cases ho : d.os.fails (.openThread e.dwThreadId) with
  | true =>
    have hnone : newCalls d d = [] := newCalls_of_same rfl
    rw [handleException_of_refused ho, hnone]
    exact iff_of_false (fun h => by cases h) (fun h => by cases h.1)
  | false =>
    let d₁ := d.opened e.dwThreadId
    rw [handleException_of_opened ho]
    cases hs : d.stepping with
    | true =>
      have hs₁ : d₁.stepping = true := hs
      let d₂ := d₁.handleStep cb e.ExceptionAddress d.os.handles.next
      have hstep := d₁.handleStep_trace cb e.ExceptionAddress d.os.handles.next
      rw [dispatch_step hcode hs₁]
      by_cases hlast : d.lastBpType = BreakpointAction.SINGLE_STEP.toInt
      · have hlast₁ : d₁.lastBpType = BreakpointAction.SINGLE_STEP.toInt := hlast
        rw [if_pos hlast₁] at hstep
        have htrace : (d₂.closing d.os.handles.next).trace = d.trace ++ [_] := hstep
        rw [newCalls_append htrace]
        exact iff_of_true rfl ⟨rfl, rfl, hlast⟩
      · have hlast₁ : ¬ d₁.lastBpType = BreakpointAction.SINGLE_STEP.toInt := hlast
        rw [if_neg hlast₁] at hstep
        have htrace : (d₂.closing d.os.handles.next).trace = d.trace ++ [] := hstep
        rw [newCalls_append htrace]
        exact iff_of_false (fun h => by cases h) (fun h => hlast h.2.2)
    | false =>
      have hs₁ : d₁.stepping = false := hs
      let d₂ := d₁.handleHardware cb e.ExceptionCode e.ExceptionAddress d.os.handles.next
      obtain ⟨c, x, hhit, hne⟩ := d₁.handleHardware_trace cb e.ExceptionCode
        e.ExceptionAddress d.os.handles.next
      have htrace : (d₂.closing d.os.handles.next).trace = d.trace ++ [(c, x)] := hhit
      rw [dispatch_hardware hcode hs₁, newCalls_append htrace]
      exact iff_of_false (fun h => hne _ _ (List.cons.inj h).1) (fun h => by cases h.2.1)

end Debugger

open Debugger

namespace Trapping

variable {cb : Callbacks b} {v : ℤ} {s s' : Trapping b}

def Tied (v : ℤ) (s : Trapping b) : Prop :=
  s.dbg.lastBpType = BreakpointAction.SINGLE_STEP.toInt ↔
    v = BreakpointAction.SINGLE_STEP.toInt ∧ .RESTORE ∉ s.dbg.answers

theorem heard (hcb : KeepsLastBpType cb) (s : Trapping b) (turn : Turn b) :
    Heard s.dbg (s.after cb turn).dbg := by
  cases turn with
  | debuggee os => exact .of_same rfl rfl
  | event ev =>
    cases ev with
    | EXCEPTION e => exact .handleException hcb e
    | _ => exact .handleEvent hcb _

theorem Tied.after (h : s.Tied v) (hcb : KeepsLastBpType cb) (turn : Turn b) :
    (s.after cb turn).Tied v := by
  obtain ⟨new, hnew, hlast⟩ := s.heard hcb turn
  unfold Tied at h ⊢
  rw [hlast, h, hnew, List.mem_append, not_or, and_assoc]

theorem Tied.missed_iff (h : s.Tied v) (hnone : s.missed = []) (turn : Turn b) :
    (s.after cb turn).missed = [] ↔ s.Reported v turn := by
  cases turn with
  | debuggee os => exact iff_of_true hnone trivial
  | event ev =>
    cases ev with
    | EXCEPTION e =>
      by_cases htrap : e.ExceptionCode = EXCEPTION_SINGLE_STEP ∧ e.dwThreadId ∈ s.awaited
      · obtain ⟨hcode, hawaited⟩ := htrap
        have hiff : TrapDelivered s.dbg (s.dbg.handleException cb e) e ↔ _ :=
          trapDelivered_iff hcode
        unfold Tied at h
        rw [h] at hiff
        by_cases hdelivered : TrapDelivered s.dbg (s.dbg.handleException cb e) e
        · have hkept : (s.after cb (.event (.EXCEPTION e))).missed = s.missed :=
            if_neg (fun hc => hc.2.2 hdelivered)
          exact iff_of_true (hkept.trans hnone) (fun _ _ => hiff.mp hdelivered)
        · have hmissed : (s.after cb (.event (.EXCEPTION e))).missed = s.missed ++ [e] :=
            if_pos ⟨hcode, hawaited, hdelivered⟩
          rw [hmissed]
          exact iff_of_false (List.append_ne_nil_of_right_ne_nil _ (List.cons_ne_nil _ _))
            (fun hreported => hdelivered (hiff.mpr (hreported hcode hawaited)))
      · have hkept : (s.after cb (.event (.EXCEPTION e))).missed = s.missed :=
          if_neg (fun hc => htrap ⟨hc.1, hc.2.1⟩)
        rw [hkept]
        exact iff_of_true hnone (fun hcode hawaited => absurd ⟨hcode, hawaited⟩ htrap)
    | _ => exact iff_of_true hnone trivial

end Trapping

open Trapping

/-- In every run of the loop in which each trap of a thread that was told to step meets
the condition, all such traps are reported; and from every state of such a run, the next
turn reports its trap exactly if it meets the condition. -/
theorem single_steps_reported {cb : Callbacks b} {d : Debugger b} {s : Trapping b}
    {turns : List (Turn b)} (hcb : KeepsLastBpType cb) (hnew : d.trace = [])
    (hrun : Run (Restrict (TrappingStep cb) (Reported d.lastBpType)) (.start d) turns s) :
    s.missed = [] ∧ ∀ turn s', TrappingStep cb s turn s' →
      (s'.missed = [] ↔ s.Reported d.lastBpType turn) := by
  have hstart : (Trapping.start d).Tied d.lastBpType := by
    have hanswers : d.answers = [] := by rw [answers, hnew, List.filter_nil, List.map_nil]
    refine (and_iff_left ?_).symm
    change .RESTORE ∉ d.answers
    rw [hanswers]
    exact List.not_mem_nil
  have hkeep (s : Trapping b) (turn : Turn b) (s' : Trapping b)
      (h : s.Tied d.lastBpType ∧ s.missed = [])
      (hstep : Restrict (TrappingStep cb) (Reported d.lastBpType) s turn s') :
      s'.Tied d.lastBpType ∧ s'.missed = [] := by
    obtain ⟨⟨-, rfl⟩, hreported⟩ := hstep
    exact ⟨h.1.after hcb turn, (h.1.missed_iff h.2 turn).mpr hreported⟩
  obtain ⟨htied, hnone⟩ := hrun.invariant hkeep ⟨hstart, rfl⟩
  refine ⟨hnone, fun turn s' hstep => ?_⟩
  rw [hstep.2]
  exact htied.missed_iff hnone turn

theorem keepsLastBpType_answering (ans : Call b → Debugger b → BreakpointAction) :
    KeepsLastBpType (answering ans) := fun _ _ => rfl

/-- The uninitialised member happened to hold 2: a hit and two traps. -/
theorem single_steps_reported_twice :
    let cb : Callbacks .x64 := answering (fun _ _ => .SINGLE_STEP)
    let d : Debugger .x64 :=
      (construct (.ofCode (fun _ => 0x90) [7]) 0 false 2 false .empty 0).setBreakpoint 5
    let s := (Trapping.start d).exception cb ⟨EXCEPTION_BREAKPOINT, 5, 7, 0, 0⟩
    let s₁ := s.exception cb ⟨EXCEPTION_SINGLE_STEP, 6, 7, 0, 0⟩
    let s₂ := s₁.exception cb ⟨EXCEPTION_SINGLE_STEP, 7, 7, 0, 0⟩
    7 ∈ s.awaited ∧ 7 ∈ s₁.awaited ∧ s₂.missed = [] := by
  intro cb d s s₁ s₂
  have hhit : Restrict (TrappingStep cb) (Reported d.lastBpType) (.start d)
      (.event (.EXCEPTION ⟨EXCEPTION_BREAKPOINT, 5, 7, 0, 0⟩)) s :=
    ⟨⟨by decide, rfl⟩, fun h => absurd h (by decide)⟩
  have htrap : Restrict (TrappingStep cb) (Reported d.lastBpType) s
      (.event (.EXCEPTION ⟨EXCEPTION_SINGLE_STEP, 6, 7, 0, 0⟩)) s₁ :=
    ⟨⟨by decide, rfl⟩, fun _ _ => by decide⟩
  have htrap₁ : Restrict (TrappingStep cb) (Reported d.lastBpType) s₁
      (.event (.EXCEPTION ⟨EXCEPTION_SINGLE_STEP, 7, 7, 0, 0⟩)) s₂ :=
    ⟨⟨by decide, rfl⟩, fun _ _ => by decide⟩
  exact ⟨by decide, by decide, (single_steps_reported (keepsLastBpType_answering _) (by decide)
    (.cons hhit (.cons htrap (.cons htrap₁ (.nil _))))).1⟩

/-- The member held 0: the trap after the hit is taken for the end of a restore. -/
theorem first_trap_missed :
    let cb : Callbacks .x64 := answering (fun _ _ => .SINGLE_STEP)
    let d : Debugger .x64 := (new (.ofCode (fun _ => 0x90) [7])).setBreakpoint 5
    ∃ turns s, Run (TrappingStep cb) (.start d) turns s ∧ s.dbg.answers = [.SINGLE_STEP] ∧
      s.missed.length = 1 := by
  intro cb d
  let s := (Trapping.start d).exception cb ⟨EXCEPTION_BREAKPOINT, 5, 7, 0, 0⟩
  let s₁ := s.exception cb ⟨EXCEPTION_SINGLE_STEP, 6, 7, 0, 0⟩
  have hhit : TrappingStep cb (.start d)
      (.event (.EXCEPTION ⟨EXCEPTION_BREAKPOINT, 5, 7, 0, 0⟩)) s := ⟨by decide, rfl⟩
  have htrap : TrappingStep cb s
      (.event (.EXCEPTION ⟨EXCEPTION_SINGLE_STEP, 6, 7, 0, 0⟩)) s₁ := ⟨by decide, rfl⟩
  exact ⟨_, s₁, .cons hhit (.cons htrap (.nil _)), by decide, by decide⟩

end RoboDbg
