import RoboDbg.Breakpoints
import RoboDbg.DebugStrings
import RoboDbg.ProcessBreakpoints

/-!
# The event loop

`handleException` is the body of `loop` for an exception event and `handleEvent`
the `switch` over the event kinds. Between two events the debuggee runs, so the
loop is given what happened to the system before each event.
-/

namespace RoboDbg

variable {b : Build}

def EXCEPTION_BREAKPOINT : DWORD := 0x80000003
def EXCEPTION_SINGLE_STEP : DWORD := 0x80000004
def EXCEPTION_ACCESS_VIOLATION : DWORD := 0xC0000005

/-- The fields of an exception event that the loop reads. -/
structure ExceptionEvent (b : Build) where
  ExceptionCode : DWORD
  ExceptionAddress : LPVOID b
  dwThreadId : DWORD
  ExceptionInformation : DWORD_PTR b × DWORD_PTR b

inductive DebugEvent (b : Build)
  | CREATE_PROCESS (lpBaseOfImage : LPVOID b)
  | EXIT_PROCESS (dwExitCode dwProcessId : DWORD)
  | CREATE_THREAD (dwThreadId : DWORD) (lpThreadLocalBase lpStartAddress : LPVOID b)
  | EXIT_THREAD (dwThreadId : DWORD)
  | LOAD_DLL (lpBaseOfDll lpImageName : LPVOID b) (fUnicode : WORD)
  /-- The loop reads this event through the members of `LoadDll` as well; of the
  union's bytes at `lpImageName` and `fUnicode` the event says nothing. -/
  | UNLOAD_DLL (lpBaseOfDll lpImageName : LPVOID b) (fUnicode : WORD)
  | EXCEPTION (e : ExceptionEvent b)
  | OUTPUT_DEBUG_STRING (lpDebugStringData : LPVOID b) (fUnicode nDebugStringLength : WORD)
  | RIP (dwError dwType : DWORD)
  | unknown (dwDebugEventCode : DWORD)

namespace Context

def withTrapFlag (ctx : Context b) : Context b := { ctx with EFlags := ctx.EFlags ||| 0x100 }

/-- `ctx.Rip--` or `ctx.Eip--`. -/
def stepBack (ctx : Context b) : Context b := { ctx with Ip := ctx.Ip - 1 }

def userFlags (ctx : Context b) : DWORD := ctx.EFlags &&& ~~~0x100

def trapFlag (ctx : Context b) : Bool := ctx.EFlags.getLsbD 8

theorem userFlags_withTrapFlag (ctx : Context b) : ctx.withTrapFlag.userFlags = ctx.userFlags := by
  apply BitVec.eq_of_getLsbD_eq
  intro i _
  simp only [userFlags, withTrapFlag, BitVec.getLsbD_and, BitVec.getLsbD_or, BitVec.getLsbD_not]
  cases (0x100 : DWORD).getLsbD i <;> simp

theorem trapFlag_withTrapFlag (ctx : Context b) : ctx.withTrapFlag.trapFlag = true := by
  have hbit : (0x100 : DWORD).getLsbD 8 = true := by decide
  simp only [trapFlag, withTrapFlag, BitVec.getLsbD_or, hbit, Bool.or_true]

end Context

namespace Debugger

def enableSingleStep (hThread : HANDLE) (d : Debugger b) : Debugger b :=
  match d.os.getThreadContext .CONTROL hThread with
  | none => d
  | some ctx =>
    { d with os := (d.os.setThreadContext .CONTROL hThread ctx.withTrapFlag).getD d.os }

def decrementIP (hThread : HANDLE) (d : Debugger b) : Debugger b :=
  let os := (d.os.suspendThread hThread).getD d.os
  let os :=
    match os.getThreadContext .CONTROL hThread with
    | none => os
    | some ctx => (os.setThreadContext .CONTROL hThread ctx.stepBack).getD os
  { d with os := (os.resumeThread hThread).getD os }

/-- What the loop does with the answer of `onBreakpoint` to a breakpoint hit. -/
def answerBreakpoint (addr : LPVOID b) (hThread : HANDLE) (bpType : BreakpointAction)
    (d : Debugger b) : Debugger b :=
  if bpType ≠ .BREAK then
    let d := { d.enableSingleStep hThread with stepping := true }
    if bpType = .RESTORE then
      { d with
        bpAddrToRestore := addr
        lastBpType := bpType.toInt
        needToRestoreBreakpoint := true }
    else d
  else { d with stepping := false, breakpoints := d.breakpoints.erase addr }

/-- `EXCEPTION_BREAKPOINT`. -/
def handleBreakpoint (cb : Callbacks b) (addr : LPVOID b) (hThread : HANDLE) (d : Debugger b) :
    Debugger b :=
  match d.breakpoints[addr]? with
  | none => d
  | some _ =>
    let d := (d.restoreBreakpoint addr).decrementIP hThread
    let (d, bpType) := d.call cb (.onBreakpoint addr hThread)
    d.answerBreakpoint addr hThread bpType

/-- The deferred restore at the start of the single-step branch. -/
def restorePending (d : Debugger b) : Debugger b :=
  if d.needToRestoreBreakpoint then
    let d :=
      if d.restoreHwBP then
        { (d.setHardwareBreakpoint d.hwBPToRestore).1 with restoreHwBP := false }
      else d.setBreakpoint d.bpAddrToRestore
    { d with needToRestoreBreakpoint := false }
  else d

/-- What the loop does with the answer of `onBreakpoint` to a completed step. -/
def answerStep (addr : LPVOID b) (hThread : HANDLE) (bpType : BreakpointAction) (d : Debugger b) :
    Debugger b :=
  if bpType ≠ .BREAK then
    let d := { d with
      bpAddrToRestore := addr
      needToRestoreBreakpoint := true
      lastBpType := bpType.toInt }
    { d.enableSingleStep hThread with stepping := true }
  else d

/-- `EXCEPTION_SINGLE_STEP && stepping`. -/
def handleStep (cb : Callbacks b) (addr : LPVOID b) (hThread : HANDLE) (d : Debugger b) :
    Debugger b :=
  let d := d.restorePending
  if d.lastBpType = BreakpointAction.SINGLE_STEP.toInt then
    let (d, bpType) := d.call cb (.onBreakpoint addr hThread)
    d.answerStep addr hThread bpType
  else { d with stepping := false }

/-- What the loop does with the answer of `onHardwareBreakpoint`. -/
def answerHardware (addr : LPVOID b) (hThread : HANDLE) (reg : DRReg) (bpType : BreakpointAction)
    (d : Debugger b) : Debugger b :=
  match bpType with
  | .BREAK => (d.clearHardwareBreakpoint reg).1
  | .SINGLE_STEP =>
    let d := { d.enableSingleStep hThread with stepping := true }
    (d.clearHardwareBreakpoint reg).1
  | .RESTORE =>
    let d := { d with
      needToRestoreBreakpoint := true
      restoreHwBP := true
      hwBPToRestore := d.getBreakpointByReg reg
      bpAddrToRestore := addr
      hwBPThreadToRestore := hThread
      lastBpType := bpType.toInt }
    let d := (d.clearHardwareBreakpointOnThread d.hwBPThreadToRestore reg).1
    { d.enableSingleStep hThread with stepping := true }

/-- `EXCEPTION_SINGLE_STEP` while not stepping. -/
def handleHardware (cb : Callbacks b) (code : DWORD) (addr : LPVOID b) (hThread : HANDLE)
    (d : Debugger b) : Debugger b :=
  let reg := d.isHardwareBreakpointAt addr
  if reg ≠ .NOP then
    let (d, bpType) := d.call cb (.onHardwareBreakpoint addr hThread reg)
    d.answerHardware addr hThread reg bpType
  else (d.call cb (.onUnknownException addr code)).1

/-- The chain of `if`s over the exception code. -/
def dispatch (cb : Callbacks b) (e : ExceptionEvent b) (hThread : HANDLE) (d : Debugger b) :
    Debugger b :=
  let addr := e.ExceptionAddress
  if e.ExceptionCode = EXCEPTION_BREAKPOINT then d.handleBreakpoint cb addr hThread
  else if e.ExceptionCode = EXCEPTION_SINGLE_STEP ∧ d.stepping then d.handleStep cb addr hThread
  else if e.ExceptionCode = EXCEPTION_SINGLE_STEP then
    d.handleHardware cb e.ExceptionCode addr hThread
  else if e.ExceptionCode = EXCEPTION_ACCESS_VIOLATION then
    let rawAddr := e.ExceptionInformation.2
    let accessType := e.ExceptionInformation.1
    (d.call cb (.onAccessViolation rawAddr rawAddr (accessType.setWidth 32))).1
  else (d.call cb (.onUnknownException addr e.ExceptionCode)).1

def handleException (cb : Callbacks b) (e : ExceptionEvent b) (d : Debugger b) : Debugger b :=
  match d.os.openThread e.dwThreadId with
  | none => d
  | some (hThread, os) =>
    let d := dispatch cb e hThread { d with os := os }
    { d with os := d.os.closeHandle hThread }

/-- One event; the second component says whether `loop` returns. -/
def handleEvent (cb : Callbacks b) (ev : DebugEvent b) (d : Debugger b) : Debugger b × Bool :=
  match ev with
  | .CREATE_PROCESS lpBaseOfImage =>
    let entryPoint := Util.getEntryPoint d.os.memory lpBaseOfImage
    let d := { d with baseImageBase := lpBaseOfImage }
    ((d.call cb (.onStart lpBaseOfImage entryPoint)).1, false)
  | .EXIT_PROCESS dwExitCode dwProcessId => ((d.call cb (.onEnd dwExitCode dwProcessId)).1, true)
  | .CREATE_THREAD dwThreadId lpThreadLocalBase lpStartAddress =>
    match d.os.openThread dwThreadId with
    | none => (d, false)
    | some (hThread, os) =>
      let d := { d with os := os }
      let d := (d.call cb (.onThreadCreate hThread dwThreadId lpThreadLocalBase lpStartAddress)).1
      let newThread := ⟨hThread, dwThreadId, lpThreadLocalBase, lpStartAddress⟩
      ({ d with threads := d.threads ++ [newThread] }, false)
  | .EXIT_THREAD dwThreadId => ((d.call cb (.onThreadExit dwThreadId)).1, false)
  | .LOAD_DLL base lpImageName fUnicode =>
    let name := Util.getDllName d.os lpImageName fUnicode
    let entryPoint := Util.getEntryPoint d.os.memory base
    ((d.call cb (.onDLLLoad base name entryPoint)).1, false)
  | .UNLOAD_DLL base lpImageName fUnicode =>
    let name := Util.getDllName d.os lpImageName fUnicode
    ((d.call cb (.onDLLUnload base name)).1, false)
  | .EXCEPTION e => (d.handleException cb e, false)
  | .OUTPUT_DEBUG_STRING lpDebugStringData fUnicode nDebugStringLength =>
    let msg := Util.getDebugString d.os lpDebugStringData fUnicode nDebugStringLength
    ((d.call cb (.onDebugString msg)).1, false)
  | .RIP dwError dwType => ((d.call cb (.onRIPError dwError dwType)).1, false)
  | .unknown dwDebugEventCode => ((d.call cb (.onUnknownDebugEvent dwDebugEventCode)).1, false)

/-- The rounds of `loop`: each element holds what the debuggee and the system did
before an event, and the event. `WaitForDebugEvent` fails at the end of the list. -/
def rounds (cb : Callbacks b) : List ((Os b → Os b) × DebugEvent b) → Debugger b → Debugger b
  | [], d => d
  | (meanwhile, ev) :: evs, d =>
    if d.dbgLoop then
      let r := handleEvent cb ev { d with os := meanwhile d.os }
      if r.2 then r.1 else rounds cb evs r.1
    else d

/-- `loop` up to the end of its `while`; behind it the two handles are closed, see
`Session.leave`. -/
def loop (cb : Callbacks b) (evs : List ((Os b → Os b) × DebugEvent b)) (d : Debugger b) :
    Debugger b :=
  rounds cb evs { d with stepping := false }

def EachRound (cb : Callbacks b) (P : Debugger b → DebugEvent b → Prop) :
    List ((Os b → Os b) × DebugEvent b) → Debugger b → Prop
  | [], _ => True
  | (meanwhile, ev) :: evs, d =>
    d.dbgLoop = true →
      let d := { d with os := meanwhile d.os }
      let r := handleEvent cb ev d
      P d ev ∧ (r.2 = false → EachRound cb P evs r.1)

theorem EachRound.congr {cb : Callbacks b} {P Q : Debugger b → DebugEvent b → Prop}
    (h : ∀ d ev, P d ev ↔ Q d ev) (evs : List ((Os b → Os b) × DebugEvent b)) (d : Debugger b) :
    EachRound cb P evs d ↔ EachRound cb Q evs d := by
  induction evs generalizing d with
  | nil => exact Iff.rfl
  | cons p evs ih =>
    unfold EachRound
    exact imp_congr_right (fun _ => and_congr (h _ _) (imp_congr_right (fun _ => ih _)))

/-! ## Which branch an event takes -/

variable {cb : Callbacks b} {e : ExceptionEvent b} {hThread : HANDLE} {d : Debugger b}

theorem dispatch_breakpoint (h : e.ExceptionCode = EXCEPTION_BREAKPOINT) :
    d.dispatch cb e hThread = d.handleBreakpoint cb e.ExceptionAddress hThread := by
  rw [dispatch, if_pos h]

theorem dispatch_step (h : e.ExceptionCode = EXCEPTION_SINGLE_STEP) (hs : d.stepping = true) :
    d.dispatch cb e hThread = d.handleStep cb e.ExceptionAddress hThread := by
  have hne : ¬ e.ExceptionCode = EXCEPTION_BREAKPOINT := by
    rw [h]
    decide
  rw [dispatch, if_neg hne, if_pos ⟨h, hs⟩]

theorem dispatch_hardware (h : e.ExceptionCode = EXCEPTION_SINGLE_STEP) (hs : d.stepping = false) :
    d.dispatch cb e hThread =
      d.handleHardware cb e.ExceptionCode e.ExceptionAddress hThread := by
  have hne : ¬ e.ExceptionCode = EXCEPTION_BREAKPOINT := by
    rw [h]
    decide
  have hstep : ¬ (e.ExceptionCode = EXCEPTION_SINGLE_STEP ∧ d.stepping = true) := by
    rw [hs]
    simp
  rw [dispatch, if_neg hne, if_neg hstep, if_pos h]

theorem dispatch_elim {motive : Debugger b → Prop}
    (breakpoint : e.ExceptionCode = EXCEPTION_BREAKPOINT →
      motive (d.handleBreakpoint cb e.ExceptionAddress hThread))
    (step : e.ExceptionCode = EXCEPTION_SINGLE_STEP → d.stepping = true →
      motive (d.handleStep cb e.ExceptionAddress hThread))
    (hardware : e.ExceptionCode = EXCEPTION_SINGLE_STEP → d.stepping = false →
      motive (d.handleHardware cb e.ExceptionCode e.ExceptionAddress hThread))
    (other : ∀ c, c.returnsAction = false → motive (d.call cb c).1) :
    motive (d.dispatch cb e hThread) := by
  by_cases hbp : e.ExceptionCode = EXCEPTION_BREAKPOINT
  · rw [dispatch_breakpoint hbp]
    exact breakpoint hbp
  · by_cases hss : e.ExceptionCode = EXCEPTION_SINGLE_STEP
    · cases hs : d.stepping with
      | true =>
        rw [dispatch_step hss hs]
        exact step hss hs
      | false =>
        rw [dispatch_hardware hss hs]
        exact hardware hss hs
    · have hstep : ¬ (e.ExceptionCode = EXCEPTION_SINGLE_STEP ∧ d.stepping = true) :=
        fun hc => hss hc.1
      rw [dispatch, if_neg hbp, if_neg hstep, if_neg hss]
      split_ifs
      · exact other _ rfl
      · exact other _ rfl

def opened (tid : DWORD) (d : Debugger b) : Debugger b :=
  { d with os := { d.os with handles := d.os.handles.insert tid } }

def closing (hThread : HANDLE) (d : Debugger b) : Debugger b :=
  { d with os := d.os.closeHandle hThread }

theorem lookup_opened (tid : DWORD) (d : Debugger b) :
    (d.opened tid).os.handles.lookup d.os.handles.next = some tid :=
  HandleTable.lookup_insert_next _ _

theorem handleException_of_opened (h : d.os.fails (.openThread e.dwThreadId) = false) :
    d.handleException cb e =
      ((d.opened e.dwThreadId).dispatch cb e d.os.handles.next).closing d.os.handles.next := by
  simp only [handleException, Os.openThread, h, Bool.false_eq_true, if_false]
  rfl

theorem handleException_of_refused (h : d.os.fails (.openThread e.dwThreadId) = true) :
    d.handleException cb e = d := by
  simp only [handleException, Os.openThread, h, if_true]

/-- Of all events that are no exceptions only a new process or thread does more than reach
a callback. -/
theorem handleEvent_elim {motive : Debugger b → Prop} {ev : DebugEvent b}
    (exception : ∀ e, ev = .EXCEPTION e → motive (d.handleException cb e)) (refused : motive d)
    (call : ∀ c, c.returnsAction = false → motive (d.call cb c).1)
    (started : ∀ base c, c.returnsAction = false →
      motive (({ d with baseImageBase := base } : Debugger b).call cb c).1)
    (created : ∀ tid c thread, c.returnsAction = false → motive { ((d.opened tid).call cb c).1 with
      threads := ((d.opened tid).call cb c).1.threads ++ [thread] }) :
    motive (d.handleEvent cb ev).1 := by
  cases ev with
  | EXCEPTION e => exact exception e rfl
  | CREATE_PROCESS base => exact started base _ rfl
  | CREATE_THREAD tid base start =>
    cases ho : d.os.fails (.openThread tid) with
    | true =>
      simp only [handleEvent, Os.openThread, ho, if_true]
      exact refused
    | false =>
      simp only [handleEvent, Os.openThread, ho, Bool.false_eq_true, if_false]
      exact created tid _ _ rfl
  | _ => exact call _ rfl

theorem exists_filed {a : LPVOID b} (ha : a ∈ d.breakpoints) : ∃ x, d.breakpoints[a]? = some x :=
  Option.isSome_iff_exists.mp (Std.TreeMap.isSome_getElem?_iff_mem.mpr ha)

theorem handleBreakpoint_of_not_listed {a : LPVOID b} (h : d.breakpoints[a]? = none) :
    d.handleBreakpoint cb a hThread = d := by
  simp only [handleBreakpoint, h]

theorem handleBreakpoint_of_listed {a : LPVOID b} {x : BYTE} (h : d.breakpoints[a]? = some x) :
    d.handleBreakpoint cb a hThread =
      let r := ((d.restoreBreakpoint a).decrementIP hThread).call cb (.onBreakpoint a hThread)
      r.1.answerBreakpoint a hThread r.2 := by
  simp only [handleBreakpoint, h]

theorem restorePending_of_none (h : d.needToRestoreBreakpoint = false) : d.restorePending = d := by
  simp only [restorePending, h, Bool.false_eq_true, if_false]

theorem restorePending_of_software (h : d.needToRestoreBreakpoint = true)
    (hhw : d.restoreHwBP = false) : d.restorePending =
      { d.setBreakpoint d.bpAddrToRestore with needToRestoreBreakpoint := false } := by
  simp only [restorePending, h, hhw, if_true, Bool.false_eq_true, if_false]

theorem restorePending_of_hardware (h : d.needToRestoreBreakpoint = true)
    (hhw : d.restoreHwBP = true) : d.restorePending =
      { (d.setHardwareBreakpoint d.hwBPToRestore).1 with
        restoreHwBP := false
        needToRestoreBreakpoint := false } := by
  simp only [restorePending, h, hhw, if_true]

/-! ## Trap flag and instruction pointer -/

structure ControlFrame (d d' : Debugger b) : Prop where
  rest : d' = { d with os := { d.os with thread := d'.os.thread } }
  slots : d'.slots = d.slots

namespace ControlFrame

variable {d d' d'' : Debugger b}

theorem refl (d : Debugger b) : ControlFrame d d := ⟨rfl, rfl⟩

theorem trans (h : ControlFrame d d') (h' : ControlFrame d' d'') : ControlFrame d d'' := by
  refine ⟨?_, h'.slots.trans h.slots⟩
  rw [h'.rest, h.rest]

theorem memory (h : ControlFrame d d') : d'.os.memory = d.os.memory := by rw [h.rest]

theorem handles (h : ControlFrame d d') : d'.os.handles = d.os.handles := by rw [h.rest]

theorem fails (h : ControlFrame d d') : d'.os.fails = d.os.fails := by rw [h.rest]

theorem breakpoints (h : ControlFrame d d') : d'.breakpoints = d.breakpoints := by rw [h.rest]

theorem trace (h : ControlFrame d d') : d'.trace = d.trace := by rw [h.rest]

theorem withThread (d : Debugger b) {tid : DWORD} {obj : ThreadObject b}
    (hslot : obj.context.slot = (d.os.context tid).slot) :
    ControlFrame d { d with os := d.os.withThread tid obj } := by
  refine ⟨rfl, ?_⟩
  funext u
  by_cases hu : u = tid
  · subst hu
    simpa [Debugger.slots, Os.context] using hslot
  · simp [Debugger.slots, Os.context, Os.withThread, Function.update_of_ne hu]

theorem suspendThread {h : HANDLE} {os : Os b} (hs : d.os.suspendThread h = some os) :
    ControlFrame d { d with os := os } := by
  obtain ⟨tid, -, -, rfl⟩ := Os.suspendThread_eq_some.mp hs
  refine withThread d ?_
  rfl

theorem resumeThread {h : HANDLE} {os : Os b} (hs : d.os.resumeThread h = some os) :
    ControlFrame d { d with os := os } := by
  obtain ⟨tid, -, -, rfl⟩ := Os.resumeThread_eq_some.mp hs
  refine withThread d ?_
  rfl

theorem setThreadContext {h : HANDLE} {ctx : Context b} {os : Os b}
    (hs : d.os.setThreadContext .CONTROL h ctx = some os) :
    ControlFrame d { d with os := os } := by
  obtain ⟨tid, -, -, rfl⟩ := Os.setThreadContext_eq_some.mp hs
  refine withThread d ?_
  funext i
  refine Context.slot_congr ?_ (fun _ _ _ => rfl)
  fin_cases i <;> rfl

theorem getD {o : Option (Os b)} (ho : ∀ os, o = some os → ControlFrame d { d with os := os }) :
    ControlFrame d { d with os := o.getD d.os } := by
  cases o with
  | none => exact refl d
  | some os => exact ho os rfl

end ControlFrame

theorem enableSingleStep_frame (hThread : HANDLE) (d : Debugger b) :
    ControlFrame d (d.enableSingleStep hThread) := by
  unfold enableSingleStep
  split
  · exact .refl d
  · exact .getD (fun os h => .setThreadContext h)

theorem decrementIP_frame (hThread : HANDLE) (d : Debugger b) :
    ControlFrame d (d.decrementIP hThread) := by
  let os₁ := (d.os.suspendThread hThread).getD d.os
  let os₂ := match os₁.getThreadContext .CONTROL hThread with
    | none => os₁
    | some ctx => (os₁.setThreadContext .CONTROL hThread ctx.stepBack).getD os₁
  have h₁ : ControlFrame d { d with os := os₁ } := .getD (fun os h => .suspendThread h)
  have h₂ : ControlFrame { d with os := os₁ } { d with os := os₂ } := by
    simp only [os₂]
    split
    · exact .refl _
    · exact ControlFrame.getD (d := { d with os := os₁ }) (fun os h => .setThreadContext h)
  have h₃ : ControlFrame { d with os := os₂ } (d.decrementIP hThread) :=
    ControlFrame.getD (d := { d with os := os₂ }) (fun os h => .resumeThread h)
  exact (h₁.trans h₂).trans h₃

theorem enableSingleStep_eq {tid : DWORD} (hr : d.os.Reliable)
    (hl : d.os.handles.lookup hThread = some tid) :
    d.enableSingleStep hThread =
      { d with os := d.os.withContext tid (d.os.context tid).withTrapFlag } := by
  simp only [enableSingleStep, hr.getThreadContext hl, hr.setThreadContext hl, Option.getD_some]
  rfl

theorem decrementIP_eq {tid : DWORD} (hr : d.os.Reliable)
    (hl : d.os.handles.lookup hThread = some tid) :
    d.decrementIP hThread =
      { d with os := d.os.withContext tid (d.os.context tid).stepBack } := by
  obtain ⟨os₁, os₂, h₁, h₂, h₃⟩ := hr.suspend_set_resume hl .CONTROL
    (Context.zero.merge .CONTROL (d.os.context tid)).stepBack
  obtain ⟨tid', hl', -, he⟩ := Os.suspendThread_eq_some.mp h₁
  obtain rfl : tid = tid' := Option.some.inj (hl.symm.trans hl')
  have hr₁ : os₁.Reliable := by
    rw [he]
    exact hr
  have hl₁ : os₁.handles.lookup hThread = some tid := by
    rw [he]
    exact hl
  have hctx : os₁.context tid = d.os.context tid := by
    rw [he]
    simp [Os.context]
  simp only [decrementIP, h₁, Option.getD_some, hr₁.getThreadContext hl₁, hctx, h₂, h₃]
  rfl

/-! ## Flags and table after an answer -/

def afterHit (addr : LPVOID b) (bpType : BreakpointAction) (d : Debugger b) : Debugger b :=
  match bpType with
  | .BREAK => { d with stepping := false, breakpoints := d.breakpoints.erase addr }
  | .RESTORE => { d with
      stepping := true
      bpAddrToRestore := addr
      lastBpType := BreakpointAction.RESTORE.toInt
      needToRestoreBreakpoint := true }
  | .SINGLE_STEP => { d with stepping := true }

def afterStep (addr : LPVOID b) (bpType : BreakpointAction) (d : Debugger b) : Debugger b :=
  if bpType ≠ .BREAK then
    { d with
      stepping := true
      bpAddrToRestore := addr
      needToRestoreBreakpoint := true
      lastBpType := bpType.toInt }
  else d

def afterHardware (addr : LPVOID b) (hThread : HANDLE) (reg : DRReg) (d : Debugger b) :
    Debugger b :=
  { d with
    needToRestoreBreakpoint := true
    restoreHwBP := true
    hwBPToRestore := d.getBreakpointByReg reg
    bpAddrToRestore := addr
    hwBPThreadToRestore := hThread
    lastBpType := BreakpointAction.RESTORE.toInt }

theorem answerHardware_restore (a : LPVOID b) (hThread : HANDLE) (reg : DRReg) (d : Debugger b) :
    d.answerHardware a hThread reg .RESTORE =
      { enableSingleStep hThread
          ((d.afterHardware a hThread reg).clearHardwareBreakpointOnThread hThread reg).1 with
        stepping := true } := rfl

theorem answerBreakpoint_frame (a : LPVOID b) (hThread : HANDLE) (bpType : BreakpointAction)
    (d : Debugger b) :
    ControlFrame (d.afterHit a bpType) (d.answerBreakpoint a hThread bpType) := by
  have hf := enableSingleStep_frame hThread d
  cases bpType with
  | BREAK => exact .refl _
  | RESTORE =>
    refine ⟨?_, hf.slots⟩
    simp only [answerBreakpoint, afterHit]
    rw [hf.rest]
    rfl
  | SINGLE_STEP =>
    refine ⟨?_, hf.slots⟩
    simp only [answerBreakpoint, afterHit]
    rw [hf.rest]
    rfl

theorem answerStep_frame (a : LPVOID b) (hThread : HANDLE) (bpType : BreakpointAction)
    (d : Debugger b) : ControlFrame (d.afterStep a bpType) (d.answerStep a hThread bpType) := by
  simp only [answerStep, afterStep]
  split_ifs
  · have hf := enableSingleStep_frame hThread { d with
      bpAddrToRestore := a
      needToRestoreBreakpoint := true
      lastBpType := bpType.toInt }
    refine ⟨?_, hf.slots⟩
    rw [hf.rest]
  · exact .refl _

end Debugger
end RoboDbg
