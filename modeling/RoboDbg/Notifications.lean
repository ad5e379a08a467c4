import RoboDbg.SingleSteps

/-!
# What the notifications are told

Every event has data of its own, and the callback for it is to be given these.
Two branches read something else: an access violation reports the accessed address
twice, and an unload reads its name through the members of a load.
-/

namespace RoboDbg

variable {b : Build}

/-- The name that a load of this base was reported with. -/
def Call.loadedAt (base : LPVOID b) : Call b → Option Text
  | .onDLLLoad address dllName _ => if address = base then some dllName else none
  | _ => none

/-- A callback for an exception, given the exception's data and the handle of its thread. -/
def Call.Describes (e : ExceptionEvent b) (hThread : HANDLE) : Call b → Prop
  | .onBreakpoint address h => address = e.ExceptionAddress ∧ h = hThread
  | .onHardwareBreakpoint address h _ => address = e.ExceptionAddress ∧ h = hThread
  | .onUnknownException addr code => addr = e.ExceptionAddress ∧ code = e.ExceptionCode
  | .onAccessViolation address faultingAddress accessType =>
    address = e.ExceptionAddress ∧ faultingAddress = e.ExceptionInformation.2 ∧
      accessType = e.ExceptionInformation.1.setWidth 32
  | _ => False

namespace Debugger

/-- The name with which `onDLLLoad` last reported the module at this base. -/
def reportedName (d : Debugger b) (base : LPVOID b) : Option Text :=
  d.trace.reverse.findSome? (fun c => c.1.loadedAt base)

/-- The callbacks called for an event in this state are given its data. -/
def Faithful (d : Debugger b) (calls : List (Call b)) : DebugEvent b → Prop
  | .CREATE_PROCESS base => calls = [.onStart base (Util.getEntryPoint d.os.memory base)]
  | .EXIT_PROCESS dwExitCode dwProcessId => calls = [.onEnd dwExitCode dwProcessId]
  | .CREATE_THREAD dwThreadId lpThreadLocalBase lpStartAddress =>
    calls = if d.os.fails (.openThread dwThreadId) then []
      else [.onThreadCreate d.os.handles.next dwThreadId lpThreadLocalBase lpStartAddress]
  | .EXIT_THREAD dwThreadId => calls = [.onThreadExit dwThreadId]
  | .LOAD_DLL base lpImageName fUnicode =>
    calls = [.onDLLLoad base (Util.getDllName d.os lpImageName fUnicode)
      (Util.getEntryPoint d.os.memory base)]
  | .UNLOAD_DLL base _ _ => ∃ dllName, calls = [.onDLLUnload base dllName] ∧
      ∀ reported, d.reportedName base = some reported → dllName = reported
  | .EXCEPTION e => ∀ c ∈ calls, c.Describes e d.os.handles.next
  | .OUTPUT_DEBUG_STRING lpDebugStringData fUnicode nDebugStringLength =>
    calls = [.onDebugString (Util.getDebugString d.os lpDebugStringData fUnicode
      nDebugStringLength)]
  | .RIP dwError dwType => calls = [.onRIPError dwError dwType]
  | .unknown dwDebugEventCode => calls = [.onUnknownDebugEvent dwDebugEventCode]

end Debugger

/-! ## When they are told the right things -/

def Memory.PointsTo (m : Memory b) (lpImageName p : LPVOID b) : Prop :=
  lpImageName ≠ 0 ∧ ∃ bytes,
    m.readProcessMemory lpImageName (Pod.size (LPVOID b)) = some bytes ∧ Pod.ofBytes bytes = p

/-- What memory holds behind an image-name pointer: a string, or what is reported in
place of one. -/
inductive NameAt (os : Os b) (lpImageName : LPVOID b) (isUnicode : WORD) : Text → Prop
  | unknown (h : lpImageName = 0) : NameAt os lpImageName isUnicode (literal "<unknown>")
  | readError (h : lpImageName ≠ 0)
      (hread : os.memory.readProcessMemory lpImageName (Pod.size (LPVOID b)) = none) :
      NameAt os lpImageName isUnicode (literal "<read error>")
  | nullPointer (h : os.memory.PointsTo lpImageName 0) :
      NameAt os lpImageName isUnicode (literal "<null pointer>")
  | unicodeError {p : LPVOID b} (h : os.memory.PointsTo lpImageName p) (hp : p ≠ 0)
      (hunicode : isUnicode ≠ 0)
      (hread : os.memory.readProcessMemory p (MAX_PATH * 2) = none) :
      NameAt os lpImageName isUnicode (literal "<unicode read error>")
  | unicode {p : LPVOID b} {wbuffer : List BYTE} {name : Text}
      (h : os.memory.PointsTo lpImageName p) (hp : p ≠ 0) (hunicode : isUnicode ≠ 0)
      (hread : os.memory.readProcessMemory p (MAX_PATH * 2) = some wbuffer)
      (hname : name = os.text.wideCharToMultiByte .ACP
        (cString (wideChars wbuffer) os.text.beyondWide)) (hfits : name.length < MAX_PATH) :
      NameAt os lpImageName isUnicode (cString (name ++ [0]) [])
  | unconverted {p : LPVOID b} {wbuffer : List BYTE}
      (h : os.memory.PointsTo lpImageName p) (hp : p ≠ 0) (hunicode : isUnicode ≠ 0)
      (hread : os.memory.readProcessMemory p (MAX_PATH * 2) = some wbuffer)
      (hlong : MAX_PATH ≤ (os.text.wideCharToMultiByte .ACP
        (cString (wideChars wbuffer) os.text.beyondWide)).length) :
      NameAt os lpImageName isUnicode os.text.unconverted
  | ansiError {p : LPVOID b} (h : os.memory.PointsTo lpImageName p) (hp : p ≠ 0)
      (hansi : isUnicode = 0) (hread : os.memory.readProcessMemory p MAX_PATH = none) :
      NameAt os lpImageName isUnicode (literal "<ansi read error>")
  | ansi {p : LPVOID b} {buffer : List BYTE} (h : os.memory.PointsTo lpImageName p) (hp : p ≠ 0)
      (hansi : isUnicode = 0) (hread : os.memory.readProcessMemory p MAX_PATH = some buffer) :
      NameAt os lpImageName isUnicode (cString buffer os.text.beyond)

theorem nameAt_getDllName (os : Os b) (lpImageName : LPVOID b) (isUnicode : WORD) :
    NameAt os lpImageName isUnicode (Util.getDllName os lpImageName isUnicode) := by
  unfold Util.getDllName
  by_cases hnull : lpImageName = 0
  · rw [if_pos hnull]
    exact .unknown hnull
  rw [if_neg hnull]
  split
  · next hread => exact .readError hnull hread
  · next bytes hread =>
    have hpoints : os.memory.PointsTo lpImageName (Pod.ofBytes bytes) := ⟨hnull, bytes, hread, rfl⟩
    dsimp only
    by_cases hp : (Pod.ofBytes bytes : LPVOID b) = 0
    · rw [if_pos hp]
      exact .nullPointer (hp ▸ hpoints)
    rw [if_neg hp]
    by_cases hunicode : isUnicode = 0
    · rw [if_neg (not_not.mpr hunicode)]
      split
      · next hchars => exact .ansiError hpoints hp hunicode hchars
      · next buffer hchars => exact .ansi hpoints hp hunicode hchars
    · rw [if_pos hunicode]
      split
      · next hchars => exact .unicodeError hpoints hp hunicode hchars
      · next wbuffer hchars =>
        split_ifs with hfits
        · exact .unicode hpoints hp hunicode hchars rfl hfits
        · exact .unconverted hpoints hp hunicode hchars (Nat.le_of_not_lt hfits)

theorem getDllName_eq {os : Os b} {lpImageName : LPVOID b} {isUnicode : WORD} {name : Text}
    (h : NameAt os lpImageName isUnicode name) :
    Util.getDllName os lpImageName isUnicode = name := by
  unfold Util.getDllName
  cases h with
  | unknown h => rw [if_pos h]
  | readError h hread => rw [if_neg h, hread]
  | nullPointer h =>
    obtain ⟨hne, bytes, hread, hnull⟩ := h
    simp only [if_neg hne, hread, hnull, if_true]
  | unicodeError h hp hunicode hchars =>
    obtain ⟨hne, bytes, hread, rfl⟩ := h
    simp only [if_neg hne, hread, if_neg hp, if_pos hunicode, hchars]
  | unicode h hp hunicode hchars hname hfits =>
    obtain ⟨hne, bytes, hread, rfl⟩ := h
    subst hname
    simp only [if_neg hne, hread, if_neg hp, if_pos hunicode, hchars, if_pos hfits]
  | unconverted h hp hunicode hchars hlong =>
    obtain ⟨hne, bytes, hread, rfl⟩ := h
    simp only [if_neg hne, hread, if_neg hp, if_pos hunicode, hchars, if_neg (not_lt.mpr hlong)]
  | ansiError h hp hansi hchars =>
    obtain ⟨hne, bytes, hread, rfl⟩ := h
    simp only [if_neg hne, hread, if_neg hp, hansi, ne_eq, not_true_eq_false, if_false, hchars]
  | ansi h hp hansi hchars =>
    obtain ⟨hne, bytes, hread, rfl⟩ := h
    simp only [if_neg hne, hread, if_neg hp, hansi, ne_eq, not_true_eq_false, if_false, hchars]

theorem nameAt_iff {os : Os b} {lpImageName : LPVOID b} {isUnicode : WORD} {name : Text} :
    NameAt os lpImageName isUnicode name ↔ Util.getDllName os lpImageName isUnicode = name :=
  ⟨getDllName_eq, fun h => h ▸ nameAt_getDllName os lpImageName isUnicode⟩

namespace Debugger

/-- The access is at the address of the faulting instruction; the bytes that an unload
leaves undefined lead to the name last reported. -/
def ReadsOwnData (d : Debugger b) : DebugEvent b → Prop
  | .EXCEPTION e => d.os.fails (.openThread e.dwThreadId) = false →
      e.ExceptionCode = EXCEPTION_ACCESS_VIOLATION →
        e.ExceptionAddress = e.ExceptionInformation.2
  | .UNLOAD_DLL base lpImageName fUnicode =>
    ∀ reported, d.reportedName base = some reported → NameAt d.os lpImageName fUnicode reported
  | _ => True

variable {cb : Callbacks b} {d : Debugger b} {hThread : HANDLE}

variable (cb d hThread) in
theorem handleBreakpoint_trace (a : LPVOID b) :
    (d.handleBreakpoint cb a hThread).trace = d.trace ∨
      ∃ x, (d.handleBreakpoint cb a hThread).trace = d.trace ++ [(.onBreakpoint a hThread, x)] := by
  cases hx : d.breakpoints[a]? with
  | none =>
    rw [handleBreakpoint_of_not_listed hx]
    exact Or.inl rfl
  | some x =>
    let d₁ := (d.restoreBreakpoint a).decrementIP hThread
    have htrace : d₁.trace = d.trace :=
      (decrementIP_frame hThread _).trace.trans (restoreBreakpoint_frame a d).trace
    have hafter : ∀ (bpType : BreakpointAction) (d : Debugger b),
        (d.afterHit a bpType).trace = d.trace := by
      intro bpType d
      cases bpType <;> rfl
    refine Or.inr ⟨(d₁.call cb (.onBreakpoint a hThread)).2, ?_⟩
    rw [handleBreakpoint_of_listed hx, (answerBreakpoint_frame a hThread _ _).trace, hafter, ← htrace]
    rfl

variable (cb hThread) in
theorem describes_dispatch {e : ExceptionEvent b}
    (hne : e.ExceptionCode ≠ EXCEPTION_ACCESS_VIOLATION) :
    ∃ new, (d.dispatch cb e hThread).trace = d.trace ++ new ∧
      ∀ c ∈ new.map Prod.fst, c.Describes e hThread := by
  by_cases hbp : e.ExceptionCode = EXCEPTION_BREAKPOINT
  · rw [dispatch_breakpoint hbp]
    rcases handleBreakpoint_trace cb d hThread e.ExceptionAddress with hnone | ⟨x, hone⟩
    · exact ⟨[], by rw [hnone, List.append_nil], by simp⟩
    · exact ⟨_, hone, by simp [Call.Describes]⟩
  by_cases hss : e.ExceptionCode = EXCEPTION_SINGLE_STEP
  · cases hs : d.stepping with
    | true =>
      rw [dispatch_step hss hs, trace_handleStep]
      refine ⟨_, rfl, ?_⟩
      split_ifs
      · simp [Call.Describes]
      · simp
    | false =>
      rw [dispatch_hardware hss hs, trace_handleHardware]
      refine ⟨_, rfl, ?_⟩
      split_ifs
      · simp [Call.Describes]
      · simp [Call.Describes]
  · have hstep : ¬ (e.ExceptionCode = EXCEPTION_SINGLE_STEP ∧ d.stepping = true) :=
      fun hc => hss hc.1
    rw [dispatch, if_neg hbp, if_neg hstep, if_neg hss, if_neg hne]
    exact ⟨_, rfl, by simp [Call.Describes]⟩

/-- An access violation is reported with the accessed address in both places. -/
theorem dispatch_accessViolation {e : ExceptionEvent b}
    (hav : e.ExceptionCode = EXCEPTION_ACCESS_VIOLATION) :
    d.dispatch cb e hThread = (d.call cb (.onAccessViolation e.ExceptionInformation.2
      e.ExceptionInformation.2 (e.ExceptionInformation.1.setWidth 32))).1 := by
  have hbp : ¬ e.ExceptionCode = EXCEPTION_BREAKPOINT := by
    rw [hav]
    decide
  have hss : ¬ e.ExceptionCode = EXCEPTION_SINGLE_STEP := by
    rw [hav]
    decide
  have hstep : ¬ (e.ExceptionCode = EXCEPTION_SINGLE_STEP ∧ d.stepping = true) :=
    fun hc => hss hc.1
  rw [dispatch, if_neg hbp, if_neg hstep, if_neg hss, if_pos hav]

theorem newCalls_call (c : Call b) : newCalls d (d.call cb c).1 = [c] := by
  have htrace : (d.call cb c).1.trace = d.trace ++ [(c, (d.call cb c).2)] := rfl
  rw [newCalls_append htrace]
  rfl

theorem faithful_exception_iff (e : ExceptionEvent b) :
    d.Faithful (newCalls d (d.handleEvent cb (.EXCEPTION e)).1) (.EXCEPTION e) ↔
      d.ReadsOwnData (.EXCEPTION e) := by
  change (∀ c ∈ newCalls d (d.handleException cb e), c.Describes e d.os.handles.next) ↔
    (d.os.fails (.openThread e.dwThreadId) = false →
      e.ExceptionCode = EXCEPTION_ACCESS_VIOLATION →
        e.ExceptionAddress = e.ExceptionInformation.2)
  cases ho : d.os.fails (.openThread e.dwThreadId) with
  | true =>
    have hnone : newCalls d d = [] := newCalls_of_same rfl
    rw [handleException_of_refused ho, hnone]
    exact iff_of_true (by simp) (fun h => by cases h)
  | false =>
    rw [handleException_of_opened ho]
    by_cases hav : e.ExceptionCode = EXCEPTION_ACCESS_VIOLATION
    · rw [dispatch_accessViolation hav]
      have hone : newCalls d (((d.opened e.dwThreadId).call cb (.onAccessViolation
          e.ExceptionInformation.2 e.ExceptionInformation.2
          (e.ExceptionInformation.1.setWidth 32))).1.closing d.os.handles.next) = [_] :=
        newCalls_call (d := d.opened e.dwThreadId) _
      rw [hone]
      simp [Call.Describes, hav, eq_comm]
    · obtain ⟨new, htrace, hnew⟩ :=
        describes_dispatch cb d.os.handles.next (d := d.opened e.dwThreadId) hav
      have htrace' : ((d.opened e.dwThreadId).dispatch cb e d.os.handles.next |>.closing
          d.os.handles.next).trace = d.trace ++ new := htrace
      rw [newCalls_append htrace']
      exact iff_of_true hnew (fun _ h => absurd h hav)

theorem faithful_iff (ev : DebugEvent b) :
    d.Faithful (newCalls d (d.handleEvent cb ev).1) ev ↔ d.ReadsOwnData ev := by
  cases ev with
  | CREATE_PROCESS base =>
    have hcalls : newCalls d (d.handleEvent cb (.CREATE_PROCESS base)).1 = _ :=
      newCalls_call (d := { d with baseImageBase := base }) _
    exact iff_of_true hcalls trivial
  | EXIT_PROCESS dwExitCode dwProcessId => exact iff_of_true (newCalls_call _) trivial
  | CREATE_THREAD dwThreadId lpThreadLocalBase lpStartAddress =>
    refine iff_of_true ?_ trivial
    unfold Faithful
    cases ho : d.os.fails (.openThread dwThreadId) with
    | true =>
      simp only [handleEvent, Os.openThread, ho, if_true]
      exact newCalls_of_same rfl
    | false =>
      simp only [handleEvent, Os.openThread, ho, Bool.false_eq_true, if_false]
      exact newCalls_call (d := d.opened dwThreadId) _
  | EXIT_THREAD dwThreadId => exact iff_of_true (newCalls_call _) trivial
  | LOAD_DLL base lpImageName fUnicode => exact iff_of_true (newCalls_call _) trivial
  | UNLOAD_DLL base lpImageName fUnicode =>
    have hcalls : newCalls d (d.handleEvent cb (.UNLOAD_DLL base lpImageName fUnicode)).1 =
        [.onDLLUnload base (Util.getDllName d.os lpImageName fUnicode)] := newCalls_call _
    unfold Faithful ReadsOwnData
    rw [hcalls]
    constructor
    · rintro ⟨dllName, hname, hreported⟩ reported hr
      cases hname
      exact nameAt_iff.mpr (hreported reported hr)
    · intro hname
      exact ⟨_, rfl, fun reported hr => nameAt_iff.mp (hname reported hr)⟩
  | EXCEPTION e => exact faithful_exception_iff e
  | OUTPUT_DEBUG_STRING lpDebugStringData fUnicode nDebugStringLength =>
    exact iff_of_true (newCalls_call _) trivial
  | RIP dwError dwType => exact iff_of_true (newCalls_call _) trivial
  | unknown dwDebugEventCode => exact iff_of_true (newCalls_call _) trivial

end Debugger

open Debugger

/-- In every run all callbacks are given the data of their events exactly if every
access violation is one of the code it executes and every unload finds the reported
name by accident. -/
theorem loop_faithful_iff {b : Build} (cb : Callbacks b)
    (evs : List ((Os b → Os b) × DebugEvent b)) (d : Debugger b) :
    EachRound cb (fun d ev => d.Faithful (newCalls d (d.handleEvent cb ev).1) ev) evs
        { d with stepping := false } ↔
      EachRound cb (fun d ev => d.ReadsOwnData ev) evs { d with stepping := false } :=
  EachRound.congr (fun _ ev => faithful_iff ev) evs _

/-- The instruction at `0x401000` reads address 0; and a module that was loaded without a
name is unloaded while the union holds a pointer. -/
theorem loop_not_faithful :
    let d : Debugger .x64 := .new (.ofCode (fun _ => 0x90) [7])
    let cb : Callbacks .x64 := answering (fun _ _ => .BREAK)
    let faithful := fun (d : Debugger .x64) ev => d.Faithful (newCalls d (d.handleEvent cb ev).1) ev
    ¬ EachRound cb faithful [(id, .EXCEPTION ⟨EXCEPTION_ACCESS_VIOLATION, 0x401000, 7, 0, 0⟩)] d ∧
      ¬ EachRound cb faithful [(id, .LOAD_DLL 0x10000 0 0), (id, .UNLOAD_DLL 0x10000 0x5000 0)] d := by
  intro d cb faithful
  constructor
  · intro h
    have hcall := (h rfl).1 (.onAccessViolation 0 0 0) (by decide +kernel)
    exact absurd hcall.1 (by decide)
  · intro h
    obtain ⟨-, hnext⟩ := h rfl
    obtain ⟨⟨dllName, hcall, hname⟩, -⟩ := hnext rfl rfl
    obtain rfl := hname (literal "<unknown>") (by decide +kernel)
    revert hcall
    decide +kernel

end RoboDbg
