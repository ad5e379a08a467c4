import RoboDbg.Delivery

/-!
# Events split at their callback

While a callback runs the subclass may call the debugger again. `arrive` is what
the loop does with an event before its callback, `complete` what it does after
the answer; together they are `handleEvent`.
-/

namespace RoboDbg

variable {b : Build}

def DebugEvent.ends : DebugEvent b → Bool
  | .EXIT_PROCESS _ _ => true
  | _ => false

namespace Debugger

/-- What the loop does with an exception before a callback, and the callback it then makes. -/
def arriveException (e : ExceptionEvent b) (hThread : HANDLE) (d : Debugger b) :
    Debugger b × Option (Call b) :=
  let addr := e.ExceptionAddress
  if e.ExceptionCode = EXCEPTION_BREAKPOINT then
    match d.breakpoints[addr]? with
    | none => (d.closing hThread, none)
    | some _ => ((d.restoreBreakpoint addr).decrementIP hThread, some (.onBreakpoint addr hThread))
  else if e.ExceptionCode = EXCEPTION_SINGLE_STEP ∧ d.stepping then
    let d := d.restorePending
    if d.lastBpType = BreakpointAction.SINGLE_STEP.toInt then
      (d, some (.onBreakpoint addr hThread))
    else (closing hThread { d with stepping := false }, none)
  else if e.ExceptionCode = EXCEPTION_SINGLE_STEP then
    let reg := d.isHardwareBreakpointAt addr
    if reg ≠ .NOP then (d, some (.onHardwareBreakpoint addr hThread reg))
    else (d, some (.onUnknownException addr e.ExceptionCode))
  else if e.ExceptionCode = EXCEPTION_ACCESS_VIOLATION then
    let rawAddr := e.ExceptionInformation.2
    let accessType := e.ExceptionInformation.1
    (d, some (.onAccessViolation rawAddr rawAddr (accessType.setWidth 32)))
  else (d, some (.onUnknownException addr e.ExceptionCode))

def arrive (ev : DebugEvent b) (d : Debugger b) : Debugger b × Option (Call b) :=
  match ev with
  | .CREATE_PROCESS lpBaseOfImage =>
    let entryPoint := Util.getEntryPoint d.os.memory lpBaseOfImage
    ({ d with baseImageBase := lpBaseOfImage }, some (.onStart lpBaseOfImage entryPoint))
  | .EXIT_PROCESS dwExitCode dwProcessId => (d, some (.onEnd dwExitCode dwProcessId))
  | .CREATE_THREAD dwThreadId lpThreadLocalBase lpStartAddress =>
    match d.os.openThread dwThreadId with
    | none => (d, none)
    | some (hThread, os) => ({ d with os := os },
        some (.onThreadCreate hThread dwThreadId lpThreadLocalBase lpStartAddress))
  | .EXIT_THREAD dwThreadId => (d, some (.onThreadExit dwThreadId))
  | .LOAD_DLL base lpImageName fUnicode =>
    let name := Util.getDllName d.os lpImageName fUnicode
    let entryPoint := Util.getEntryPoint d.os.memory base
    (d, some (.onDLLLoad base name entryPoint))
  | .UNLOAD_DLL base lpImageName fUnicode =>
    (d, some (.onDLLUnload base (Util.getDllName d.os lpImageName fUnicode)))
  | .EXCEPTION e =>
    match d.os.openThread e.dwThreadId with
    | none => (d, none)
    | some (hThread, os) => arriveException e hThread { d with os := os }
  | .OUTPUT_DEBUG_STRING lpDebugStringData fUnicode nDebugStringLength =>
    (d, some (.onDebugString
      (Util.getDebugString d.os lpDebugStringData fUnicode nDebugStringLength)))
  | .RIP dwError dwType => (d, some (.onRIPError dwError dwType))
  | .unknown dwDebugEventCode => (d, some (.onUnknownDebugEvent dwDebugEventCode))

/-- What the loop does with the answer of an exception's callback. -/
def completeException (e : ExceptionEvent b) (hThread : HANDLE) (c : Call b)
    (bpType : BreakpointAction) (d : Debugger b) : Debugger b :=
  closing hThread <|
    match c with
    | .onBreakpoint addr hThread =>
      if e.ExceptionCode = EXCEPTION_BREAKPOINT then d.answerBreakpoint addr hThread bpType
      else d.answerStep addr hThread bpType
    | .onHardwareBreakpoint addr hThread reg => d.answerHardware addr hThread reg bpType
    | _ => d

/-- The same for any event; `hThread` is the handle that the event has opened. -/
def complete (ev : DebugEvent b) (hThread : HANDLE) (c : Call b) (bpType : BreakpointAction)
    (d : Debugger b) : Debugger b :=
  match ev with
  | .CREATE_THREAD dwThreadId lpThreadLocalBase lpStartAddress =>
    let newThread := ⟨hThread, dwThreadId, lpThreadLocalBase, lpStartAddress⟩
    { d with threads := d.threads ++ [newThread] }
  | .EXCEPTION e => d.completeException e hThread c bpType
  | _ => d

variable {cb : Callbacks b} {e : ExceptionEvent b} {hThread : HANDLE} {d : Debugger b}

/-! ## The two halves make up the event -/

def joined (cb : Callbacks b) (e : ExceptionEvent b) (hThread : HANDLE)
    (r : Debugger b × Option (Call b)) : Debugger b :=
  match r.2 with
  | none => r.1
  | some c => (r.1.call cb c).1.completeException e hThread c (r.1.call cb c).2

theorem dispatch_eq_joined :
    (d.dispatch cb e hThread).closing hThread =
      joined cb e hThread (d.arriveException e hThread) := by
  by_cases hbp : e.ExceptionCode = EXCEPTION_BREAKPOINT
  · rw [dispatch_breakpoint hbp]
    simp only [arriveException, if_pos hbp]
    cases hx : d.breakpoints[e.ExceptionAddress]? with
    | none =>
      rw [handleBreakpoint_of_not_listed hx]
      rfl
    | some x =>
      rw [handleBreakpoint_of_listed hx]
      simp only [joined, completeException, if_pos hbp]
  · by_cases hss : e.ExceptionCode = EXCEPTION_SINGLE_STEP
    · cases hs : d.stepping with
      | true =>
        rw [dispatch_step hss hs]
        simp only [arriveException, if_neg hbp, if_pos (And.intro hss hs), handleStep]
        split_ifs
        · simp only [joined, completeException, if_neg hbp]
        · rfl
      | false =>
        have hstep : ¬ (e.ExceptionCode = EXCEPTION_SINGLE_STEP ∧ d.stepping = true) := by
          rw [hs]
          simp
        rw [dispatch_hardware hss hs]
        simp only [arriveException, if_neg hbp, if_neg hstep, if_pos hss, handleHardware]
        split_ifs
        · rfl
        · rfl
    · have hstep : ¬ (e.ExceptionCode = EXCEPTION_SINGLE_STEP ∧ d.stepping = true) :=
        fun hc => hss hc.1
      rw [dispatch, if_neg hbp, if_neg hstep, if_neg hss]
      simp only [arriveException, if_neg hbp, if_neg hstep, if_neg hss]
      split_ifs
      · rfl
      · rfl

theorem arrive_of_opened (h : d.os.fails (.openThread e.dwThreadId) = false) :
    d.arrive (.EXCEPTION e) = (d.opened e.dwThreadId).arriveException e d.os.handles.next := by
  simp only [arrive, Os.openThread, h, Bool.false_eq_true, if_false]
  rfl

theorem arrive_of_refused (h : d.os.fails (.openThread e.dwThreadId) = true) :
    d.arrive (.EXCEPTION e) = (d, none) := by
  simp only [arrive, Os.openThread, h, if_true]

/-- `handleEvent` is the first half, the callback, and the second half. -/
theorem handleEvent_eq (cb : Callbacks b) (ev : DebugEvent b) (d : Debugger b) :
    d.handleEvent cb ev =
      match (d.arrive ev).2 with
      | none => ((d.arrive ev).1, false)
      | some c =>
        let r := (d.arrive ev).1.call cb c
        (r.1.complete ev d.os.handles.next c r.2, ev.ends) := by
  cases ev with
  | EXCEPTION e =>
    change (d.handleException cb e, false) = _
    cases ho : d.os.fails (.openThread e.dwThreadId) with
    | true => rw [handleException_of_refused ho, arrive_of_refused ho]
    | false =>
      rw [handleException_of_opened ho, arrive_of_opened ho, dispatch_eq_joined]
      simp only [joined]
      cases (arriveException e d.os.handles.next (d.opened e.dwThreadId)).2 with
      | none => rfl
      | some c => rfl
  | CREATE_THREAD tid base start =>
    cases ho : d.os.fails (.openThread tid) with
    | true => simp only [handleEvent, arrive, Os.openThread, ho, if_true]
    | false =>
      simp only [handleEvent, arrive, Os.openThread, ho, Bool.false_eq_true, if_false]
      rfl
  | _ => rfl

/-! ## What the halves may change -/

/-- Changes of memory and table by setting breakpoints on addresses allowed by `P`, by
restoring and by dropping entries; and any changes of other members but `dbgLoop`. -/
inductive Edits (P : Memory b → LPVOID b → Prop) : Debugger b → Debugger b → Prop
  | refl (d : Debugger b) : Edits P d d
  | set {d d' : Debugger b} (h : Edits P d d') (a : LPVOID b) (ha : P d'.os.memory a) :
      Edits P d (d'.setBreakpoint a)
  | restore {d d' : Debugger b} (h : Edits P d d') (a : LPVOID b) :
      Edits P d (d'.restoreBreakpoint a)
  | drop {d d' : Debugger b} (h : Edits P d d') (bps : Std.TreeMap (LPVOID b) BYTE compare)
      (hsub : ∀ (a : LPVOID b) (x : BYTE), bps[a]? = some x → d'.breakpoints[a]? = some x) :
      Edits P d { d' with breakpoints := bps }
  | aside {d d' : Debugger b} (h : Edits P d d') (d'' : Debugger b)
      (hmem : d''.os.memory = d'.os.memory) (hbps : d''.breakpoints = d'.breakpoints)
      (hloop : d''.dbgLoop = d'.dbgLoop) : Edits P d d''

namespace Edits

variable {P : Memory b → LPVOID b → Prop} {d d' d'' : Debugger b}

theorem trans (h : Edits P d d') (h' : Edits P d' d'') : Edits P d d'' := by
  induction h' with
  | refl => exact h
  | set _ a ha ih => exact ih.set a ha
  | restore _ a ih => exact ih.restore a
  | drop _ bps hsub ih => exact ih.drop bps hsub
  | aside _ d'' hmem hbps hloop ih => exact ih.aside d'' hmem hbps hloop

theorem control (h : Edits P d d') (hf : ControlFrame d' d'') : Edits P d d'' := by
  refine h.aside d'' hf.memory hf.breakpoints ?_
  rw [hf.rest]

theorem hardware (h : Edits P d d') (hf : HwFrame d' d'') : Edits P d d'' := by
  refine h.aside d'' hf.memory hf.breakpoints ?_
  rw [hf.rest]

theorem dbgLoop (h : Edits P d d') : d'.dbgLoop = d.dbgLoop := by
  induction h with
  | refl => rfl
  | @set d' _ a _ ih =>
    rw [← ih, (setBreakpoint_frame a d').rest]
  | @restore d' _ a ih =>
    rw [← ih, (restoreBreakpoint_frame a d').rest]
  | drop _ _ _ ih => exact ih
  | aside _ _ _ _ hloop ih => exact hloop.trans ih

end Edits

variable {P : Memory b → LPVOID b → Prop}

theorem restorePending_edits (h : d.needToRestoreBreakpoint = true → d.restoreHwBP = false →
    P d.os.memory d.bpAddrToRestore) : Edits P d d.restorePending := by
  cases hneed : d.needToRestoreBreakpoint with
  | false =>
    rw [restorePending_of_none hneed]
    exact .refl d
  | true =>
    cases hhw : d.restoreHwBP with
    | true =>
      rw [restorePending_of_hardware hneed hhw]
      exact ((Edits.refl d).hardware (setHardwareBreakpoint_frame _ d)).aside _ rfl rfl rfl
    | false =>
      rw [restorePending_of_software hneed hhw]
      exact ((Edits.refl d).set _ (h hneed hhw)).aside _ rfl rfl rfl

def Rearms (d : Debugger b) : DebugEvent b → Prop
  | .EXCEPTION e => e.ExceptionCode = EXCEPTION_SINGLE_STEP ∧ d.stepping = true ∧
      d.needToRestoreBreakpoint = true ∧ d.restoreHwBP = false
  | _ => False

theorem arriveException_edits (h : d.Rearms (.EXCEPTION e) → P d.os.memory d.bpAddrToRestore) :
    Edits P d (d.arriveException e hThread).1 := by
  by_cases hbp : e.ExceptionCode = EXCEPTION_BREAKPOINT
  · simp only [arriveException, if_pos hbp]
    cases d.breakpoints[e.ExceptionAddress]? with
    | none => exact (Edits.refl d).aside _ rfl rfl rfl
    | some x => exact ((Edits.refl d).restore _).control (decrementIP_frame hThread _)
  · by_cases hstep : e.ExceptionCode = EXCEPTION_SINGLE_STEP ∧ d.stepping = true
    · have hpending : Edits P d d.restorePending :=
        restorePending_edits (fun hneed hhw => h ⟨hstep.1, hstep.2, hneed, hhw⟩)
      simp only [arriveException, if_neg hbp, if_pos hstep]
      split_ifs
      · exact hpending
      · exact hpending.aside _ rfl rfl rfl
    · simp only [arriveException, if_neg hbp, if_neg hstep]
      split_ifs
      · exact .refl d
      · exact .refl d
      · exact .refl d
      · exact .refl d

theorem arrive_edits (ev : DebugEvent b) (h : d.Rearms ev → P d.os.memory d.bpAddrToRestore) :
    Edits P d (d.arrive ev).1 := by
  cases ev with
  | EXCEPTION e =>
    cases ho : d.os.fails (.openThread e.dwThreadId) with
    | true =>
      rw [arrive_of_refused ho]
      exact .refl d
    | false =>
      have hopened : Edits P d (d.opened e.dwThreadId) := (Edits.refl d).aside _ rfl rfl rfl
      rw [arrive_of_opened ho]
      exact hopened.trans (arriveException_edits h)
  | CREATE_THREAD tid base start =>
    cases ho : d.os.fails (.openThread tid) with
    | true =>
      simp only [arrive, Os.openThread, ho, if_true]
      exact .refl d
    | false =>
      simp only [arrive, Os.openThread, ho, Bool.false_eq_true, if_false]
      exact (Edits.refl d).aside _ rfl rfl rfl
  | CREATE_PROCESS base => exact (Edits.refl d).aside _ rfl rfl rfl
  | _ => exact .refl d

theorem answerHardware_edits (a : LPVOID b) (reg : DRReg) (bpType : BreakpointAction) :
    Edits P d (d.answerHardware a hThread reg bpType) := by
  have hstep (d : Debugger b) : Edits P d { d.enableSingleStep hThread with stepping := true } :=
    ((Edits.refl d).control (enableSingleStep_frame hThread d)).aside _ rfl rfl rfl
  cases bpType with
  | BREAK => exact (Edits.refl d).hardware (clearHardwareBreakpoint_frame reg d)
  | SINGLE_STEP => exact (hstep d).hardware (clearHardwareBreakpoint_frame reg _)
  | RESTORE =>
    have hrecord : Edits P d (d.afterHardware a hThread reg) := (Edits.refl d).aside _ rfl rfl rfl
    have hclear := hrecord.hardware (clearHardwareBreakpointOnThread_frame hThread reg _)
    rw [answerHardware_restore]
    exact hclear.trans (hstep _)

theorem answerBreakpoint_edits (a : LPVOID b) (bpType : BreakpointAction) :
    Edits P d (d.answerBreakpoint a hThread bpType) := by
  have hhit : Edits P d (d.afterHit a bpType) := by
    cases bpType with
    | BREAK =>
      have herase := (Edits.refl (P := P) d).drop (d.breakpoints.erase a)
        (fun _ _ => getElem?_of_erase)
      exact herase.aside _ rfl rfl rfl
    | RESTORE => exact (Edits.refl d).aside _ rfl rfl rfl
    | SINGLE_STEP => exact (Edits.refl d).aside _ rfl rfl rfl
  exact hhit.control (answerBreakpoint_frame a hThread bpType d)

theorem complete_edits (ev : DebugEvent b) (c : Call b) (bpType : BreakpointAction) :
    Edits P d (d.complete ev hThread c bpType) := by
  have hstep (a : LPVOID b) (h : HANDLE) : Edits P d (d.answerStep a h bpType) := by
    have hafter : Edits P d (d.afterStep a bpType) := by
      unfold afterStep
      split_ifs
      · exact (Edits.refl d).aside _ rfl rfl rfl
      · exact .refl d
    exact hafter.control (answerStep_frame a h bpType d)
  cases ev with
  | EXCEPTION e =>
    cases c with
    | onBreakpoint a h =>
      have hanswer : Edits P d (if e.ExceptionCode = EXCEPTION_BREAKPOINT then
          d.answerBreakpoint a h bpType else d.answerStep a h bpType) := by
        split_ifs
        · exact answerBreakpoint_edits a bpType
        · exact hstep a h
      exact hanswer.aside _ rfl rfl rfl
    | onHardwareBreakpoint a h reg =>
      exact (answerHardware_edits a reg bpType).aside _ rfl rfl rfl
    | _ => exact (Edits.refl d).aside _ rfl rfl rfl
  | CREATE_THREAD tid base start => exact (Edits.refl d).aside _ rfl rfl rfl
  | _ => exact .refl d

end Debugger
end RoboDbg
