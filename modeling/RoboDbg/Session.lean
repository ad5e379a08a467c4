import RoboDbg.Processes
import RoboDbg.Reentry
import RoboDbg.ThreadList

/-!
# Sessions

A session is a `Debugger` object with the members that name its debuggee, the
processes of the system and the point that `loop` has reached. Its moves are the
calls of the program, those that a callback makes while it runs, the rounds of
the loop, and whatever the debuggee and the system do in between.
-/

namespace RoboDbg

variable {b : Build}

/-- A call that `hProcessGlobal` was passed to. -/
inductive HandleUse
  | passed
  | closed
deriving DecidableEq

inductive Phase (b : Build)
  | outside
  /-- At the test of `dbgLoop`. -/
  | waiting
  /-- In the callback of an event that has opened `hThread`. -/
  | callback (ev : DebugEvent b) (hThread : HANDLE) (c : Call b)

structure Session (b : Build) where
  dbg : Debugger b
  debuggedPid : DWORD
  hProcessGlobal : HANDLE
  hThreadGlobal : HANDLE
  sys : Processes
  phase : Phase b
  /-- What `hProcessGlobal` was passed to since it was assigned. -/
  uses : List HandleUse

inductive Operation (b : Build)
  | setBreakpoint (address : LPVOID b)
  | restoreBreakpoint (address : LPVOID b)
  | verifyBreakpoints
  | hardware (op : HwCall b)

namespace Operation

def run (d : Debugger b) : Operation b → Debugger b
  | setBreakpoint address => d.setBreakpoint address
  | restoreBreakpoint address => d.restoreBreakpoint address
  | verifyBreakpoints => d.verifyBreakpoints.1
  | hardware op => op.run d

end Operation

instance (op : HwCall b) : Decidable op.Refreshes :=
  match op with
  | .actualizeThreadList => isTrue trivial
  | .hardware (.setHardwareBreakpoint _) => isTrue trivial
  | .hardware (.clearHardwareBreakpoint _) => isTrue trivial
  | .hardware (.setHardwareBreakpointOnThread _) => isFalse id
  | .hardware (.clearHardwareBreakpointOnThread _ _) => isFalse id

/-! ## Which functions pass the process handle on -/

/-- A refresh of the thread list passes it to `GetProcessId`. -/
def Operation.passes (d : Debugger b) : Operation b → Bool
  | setBreakpoint _ => true
  | restoreBreakpoint address => address ∈ d.breakpoints
  | verifyBreakpoints => !d.breakpoints.isEmpty
  | hardware op => op.Refreshes

namespace Debugger

/-- Before the callback: to read names, headers, strings and patched bytes. -/
def arrivePasses (ev : DebugEvent b) (d : Debugger b) : Bool :=
  match ev with
  | .CREATE_PROCESS _ => true
  | .LOAD_DLL _ _ _ => true
  | .UNLOAD_DLL _ lpImageName _ => lpImageName ≠ 0
  | .OUTPUT_DEBUG_STRING _ _ _ => true
  | .EXCEPTION e =>
    !d.os.fails (.openThread e.dwThreadId) &&
      if e.ExceptionCode = EXCEPTION_BREAKPOINT then e.ExceptionAddress ∈ d.breakpoints
      else e.ExceptionCode = EXCEPTION_SINGLE_STEP && d.stepping && d.needToRestoreBreakpoint
  | _ => false

/-- After the callback: to refresh the threads whose slot is cleared. -/
def completePasses (ev : DebugEvent b) (c : Call b) (bpType : BreakpointAction) : Bool :=
  match ev, c with
  | .EXCEPTION _, .onHardwareBreakpoint _ _ _ => bpType ≠ .RESTORE
  | _, _ => false

end Debugger

/-! ## The calls of the program -/

namespace Session

def ofDebugger (dbg : Debugger b) (debuggedPid : DWORD) (sys : Processes) : Session b where
  dbg := dbg
  debuggedPid := debuggedPid
  hProcessGlobal := 0
  hThreadGlobal := 0
  sys := sys
  phase := .outside
  uses := []

def pass (s : Session b) : Session b := { s with uses := s.uses ++ [.passed] }

def passIf (passes : Bool) (s : Session b) : Session b := if passes then s.pass else s

/-- `CloseHandle(hProcessGlobal)`; the member keeps its value. -/
def closeProcess (s : Session b) : Session b :=
  { s with sys := s.sys.closeHandle s.hProcessGlobal, uses := s.uses ++ [.closed] }

/-- The body that both `start` functions have. -/
def startProcess (commandLine : Text) (s : Session b) : Session b × ℤ :=
  match s.sys.createProcessA commandLine with
  | none => (s, -1)
  | some (pi, sys) =>
    ({ s with hProcessGlobal := pi.hProcess, hThreadGlobal := pi.hThread, sys := sys, uses := [] },
      0)

def start (exeName : Text) (s : Session b) : Session b × ℤ := s.startProcess exeName

/-- The path in quotes, then each argument after a blank. -/
def commandLine (exeName : Text) (args : List Text) : Text :=
  let cmdLine := literal "\"" ++ exeName ++ literal "\""
  args.foldl (fun cmdLine arg => cmdLine ++ literal " " ++ arg) cmdLine

def startWith (exeName : Text) (args : List Text) (s : Session b) : Session b × ℤ :=
  s.startProcess (commandLine exeName args)

def attach (pid : DWORD) (s : Session b) : Session b × ℤ :=
  if pid = 0 then (s, -1)
  else
    match s.sys.debugActiveProcess pid with
    | none => (s, -1)
    | some sys =>
      match sys.openProcess pid with
      | none => ({ s with hProcessGlobal := 0, sys := sys, uses := [] }, -1)
      | some (hProcess, sys) =>
        ({ s with hProcessGlobal := hProcess, debuggedPid := pid, sys := sys, uses := [] }, 0)

def attachName (exeName : Text) (s : Session b) : Session b × ℤ :=
  s.attach (Util.findProcessId exeName s.sys)

def detach (s : Session b) : Session b × Bool :=
  match s.sys.debugActiveProcessStop s.debuggedPid with
  | none => (s, false)
  | some sys => ({ s with sys := sys, dbg := { s.dbg with dbgLoop := false } }, true)

def exit (s : Session b) : Session b × Bool :=
  let (s, ok) := s.detach
  if !ok then (s, false)
  else if s.hProcessGlobal = 0 then (s, false)
  else
    if s.sys.fails .terminateProcess then (s.pass, false) else (s.pass.closeProcess, true)

def withOs (os : Os b) (s : Session b) : Session b := { s with dbg := { s.dbg with os := os } }

/-- The path and its terminator are in the debuggee. -/
def withPath (pDllPath : LPVOID b) (dllPath : Text) (s : Session b) : Session b :=
  let os := s.dbg.os
  s.withOs { os with memory :=
    (os.memory.writeProcessMemory .writeMemory pDllPath (dllPath ++ [0])).getD os.memory }

/-- What the failure paths of `injectDLL` do once memory has been allocated. -/
def freeAndClose (s : Session b) : Session b := s.pass.closeProcess

/-- `Util::injectDLL(getProcessHandle(), dllPath)`, where `VirtualAllocEx` gives `pDllPath`. -/
def injectDLL (pDllPath : LPVOID b) (dllPath : Text) (s : Session b) : Session b × DWORD_PTR b :=
  if s.hProcessGlobal = 0 then (s, 0)
  else if s.sys.fails .virtualAllocEx then (s.pass.closeProcess, 0)
  else if s.sys.fails .writeProcessMemory then (s.pass.pass.freeAndClose, 0)
  else
    let s' := s.pass.pass.withPath pDllPath dllPath
    if s.sys.fails .getProcAddress then (s'.freeAndClose, 0)
    else if s.sys.fails .createRemoteThread then (s'.pass.freeAndClose, 0)
    else (s'.pass, pDllPath)

def DetachSucceeds (s : Session b) : Prop :=
  s.debuggedPid ∈ s.sys.debugged ∧ s.sys.fails (.debugActiveProcessStop s.debuggedPid) = false

def detached (s : Session b) : Session b :=
  { s with
    sys := { s.sys with debugged := s.sys.debugged.erase s.debuggedPid }
    dbg := { s.dbg with dbgLoop := false } }

def InjectionFails (s : Session b) : Prop :=
  s.hProcessGlobal ≠ 0 ∧ (s.sys.fails .virtualAllocEx = true ∨
    s.sys.fails .writeProcessMemory = true ∨ s.sys.fails .getProcAddress = true ∨
    s.sys.fails .createRemoteThread = true)

instance (s : Session b) : Decidable s.InjectionFails := inferInstanceAs (Decidable (_ ∧ _))

def operate (op : Operation b) (s : Session b) : Session b :=
  { s.passIf (op.passes s.dbg) with dbg := op.run s.dbg }

/-! ## The rounds of `loop` -/

def loop (s : Session b) : Session b :=
  { s with dbg := { s.dbg with stepping := false }, phase := .waiting }

def event (ev : DebugEvent b) (s : Session b) : Session b :=
  let r := s.dbg.arrive ev
  { s.passIf (s.dbg.arrivePasses ev) with
    dbg := r.1
    phase := match r.2 with
      | none => .waiting
      | some c => .callback ev s.dbg.os.handles.next c }

/-- The callback returns; after the exit event of a process so does `loop`. -/
def answer (bpType : BreakpointAction) (s : Session b) : Session b :=
  match s.phase with
  | .callback ev hThread c =>
    let d := { s.dbg with trace := s.dbg.trace ++ [(c, bpType)] }
    let s := { s.passIf (Debugger.completePasses ev c bpType) with
      dbg := d.complete ev hThread c bpType }
    match ev with
    | .EXIT_PROCESS _ dwProcessId =>
      { s with sys := s.sys.exited dwProcessId, phase := .outside }
    | _ => { s with phase := .waiting }
  | _ => s

/-- The end of `loop` behind its `while`. -/
def leave (s : Session b) : Session b :=
  let s := s.closeProcess
  { s with sys := s.sys.closeHandle s.hThreadGlobal, phase := .outside }

end Session

inductive Move (b : Build)
  | start (exeName : Text)
  | startWith (exeName : Text) (args : List Text)
  | attach (pid : DWORD)
  | attachName (exeName : Text)
  | loop
  | detach
  | exit
  | injectDLL (pDllPath : LPVOID b) (dllPath : Text)
  | operation (op : Operation b)
  | memory (os : Os b)
  | event (ev : DebugEvent b)
  | answer (bpType : BreakpointAction)
  | waitFails
  | leave
  | debuggee (os : Os b)
  /-- Something else happens to the processes of the system. -/
  | system (sys : Processes)

namespace Session

def after (s : Session b) : Move b → Session b
  | .start exeName => (s.start exeName).1
  | .startWith exeName args => (s.startWith exeName args).1
  | .attach pid => (s.attach pid).1
  | .attachName exeName => (s.attachName exeName).1
  | .loop => s.loop
  | .detach => s.detach.1
  | .exit => s.exit.1
  | .injectDLL pDllPath dllPath => (s.injectDLL pDllPath dllPath).1
  | .operation op => s.operate op
  | .memory os => s.pass.withOs os
  | .event ev => s.event ev
  | .answer bpType => s.answer bpType
  | .waitFails => s.leave
  | .leave => s.leave
  | .debuggee os => s.withOs os
  | .system sys => { s with sys := sys }

/-- When a move can happen. A callback may do everything that the program may do outside
of `loop`, except to start, attach or loop itself. -/
def Allows (s : Session b) : Move b → Prop
  | .start _ => s.phase = .outside
  | .startWith _ _ => s.phase = .outside
  | .attach _ => s.phase = .outside
  | .attachName _ => s.phase = .outside
  | .loop => s.phase = .outside
  | .detach => s.phase ≠ .waiting
  | .exit => s.phase ≠ .waiting
  | .injectDLL _ _ => s.phase ≠ .waiting
  | .operation _ => s.phase ≠ .waiting
  | .memory _ => s.phase ≠ .waiting
  | .event _ => s.phase = .waiting ∧ s.dbg.dbgLoop = true
  | .answer _ => ∃ ev hThread c, s.phase = .callback ev hThread c
  | .waitFails => s.phase = .waiting ∧ s.dbg.dbgLoop = true
  | .leave => s.phase = .waiting ∧ s.dbg.dbgLoop = false
  | .debuggee _ => True
  | .system sys => sys.debugged = s.sys.debugged ∧
      sys.handles.lookup s.hProcessGlobal = s.sys.handles.lookup s.hProcessGlobal

end Session

def SessionStep (s : Session b) (m : Move b) (s' : Session b) : Prop :=
  s.Allows m ∧ s' = s.after m

open Debugger Runs

/-! ## Operations -/

namespace Operation

variable {P : Memory b → LPVOID b → Prop}

def Sets (a : LPVOID b) : Operation b → Prop
  | setBreakpoint address => address = a
  | _ => False

theorem run_edits (op : Operation b) (d : Debugger b)
    (h : ∀ a, op.Sets a → P d.os.memory a) : Edits P d (op.run d) := by
  cases op with
  | setBreakpoint a => exact (Edits.refl d).set a (h a rfl)
  | restoreBreakpoint a => exact (Edits.refl d).restore a
  | verifyBreakpoints => exact (Edits.refl d).drop _ (fun _ _ => verifyLoop_of_some)
  | hardware op => exact (Edits.refl d).hardware (hwCall_frame op d)

theorem run_record (op : Operation b) (d : Debugger b) :
    (op.run d).stepping = d.stepping ∧ (op.run d).trace = d.trace := by
  cases op with
  | setBreakpoint a =>
    change (d.setBreakpoint a).stepping = _ ∧ (d.setBreakpoint a).trace = _
    rw [(setBreakpoint_frame a d).rest]
    exact ⟨rfl, rfl⟩
  | restoreBreakpoint a =>
    change (d.restoreBreakpoint a).stepping = _ ∧ (d.restoreBreakpoint a).trace = _
    rw [(restoreBreakpoint_frame a d).rest]
    exact ⟨rfl, rfl⟩
  | verifyBreakpoints => exact ⟨rfl, rfl⟩
  | hardware op =>
    change (op.run d).stepping = _ ∧ (op.run d).trace = _
    rw [(hwCall_frame op d).rest]
    exact ⟨rfl, rfl⟩

end Operation

def Debugger.performing (script : Call b → Debugger b → List (Operation b) × BreakpointAction) :
    Callbacks b :=
  fun c d => ((script c d).1.foldl Operation.run d, (script c d).2)

theorem foldl_run_record (ops : List (Operation b)) (d : Debugger b) :
    (ops.foldl Operation.run d).stepping = d.stepping ∧
      (ops.foldl Operation.run d).trace = d.trace := by
  induction ops generalizing d with
  | nil => exact ⟨rfl, rfl⟩
  | cons op ops ih =>
    obtain ⟨hstepping, htrace⟩ := op.run_record d
    obtain ⟨hstepping', htrace'⟩ := ih (op.run d)
    exact ⟨hstepping'.trans hstepping, htrace'.trans htrace⟩

namespace Session

theorem passIf_phase (passes : Bool) (s : Session b) : (s.passIf passes).phase = s.phase := by
  cases passes <;> rfl

theorem detach_cases (s : Session b) :
    (s.DetachSucceeds ∧ s.detach = (s.detached, true)) ∨
      (¬ s.DetachSucceeds ∧ s.detach = (s, false)) := by
  by_cases hrefused : s.sys.fails (.debugActiveProcessStop s.debuggedPid) = true ∨
      s.debuggedPid ∉ s.sys.debugged
  · refine Or.inr ⟨fun h => ?_, ?_⟩
    · rcases hrefused with hfails | hnot
      · rw [h.2] at hfails
        cases hfails
      · exact hnot h.1
    · simp only [detach, Processes.debugActiveProcessStop, if_pos hrefused]
  · refine Or.inl ⟨?_, ?_⟩
    · rw [not_or, not_not, Bool.not_eq_true] at hrefused
      exact ⟨hrefused.2, hrefused.1⟩
    · simp only [detach, Processes.debugActiveProcessStop, if_neg hrefused]
      rfl

theorem exit_cases (s : Session b) :
    (¬ s.DetachSucceeds ∧ s.exit = (s, false)) ∨
      (s.DetachSucceeds ∧ s.hProcessGlobal = 0 ∧ s.exit = (s.detached, false)) ∨
      (s.DetachSucceeds ∧ s.hProcessGlobal ≠ 0 ∧ s.sys.fails .terminateProcess = true ∧
        s.exit = (s.detached.pass, false)) ∨
      (s.DetachSucceeds ∧ s.hProcessGlobal ≠ 0 ∧ s.sys.fails .terminateProcess = false ∧
        s.exit = (s.detached.pass.closeProcess, true)) := by
  unfold exit
  rcases s.detach_cases with ⟨hsucceeds, hdetach⟩ | ⟨hrefused, hdetach⟩
  · rw [hdetach]
    right
    by_cases hnull : s.hProcessGlobal = 0
    · exact Or.inl ⟨hsucceeds, hnull, if_pos hnull⟩
    · have hnull' : ¬ s.detached.hProcessGlobal = 0 := hnull
      right
      cases hterminate : s.sys.fails .terminateProcess with
      | true => exact Or.inl ⟨hsucceeds, hnull, rfl, (if_neg hnull').trans (if_pos hterminate)⟩
      | false =>
        have hterminate' : ¬ s.detached.sys.fails .terminateProcess = true := by
          rw [show s.detached.sys.fails = s.sys.fails from rfl, hterminate]
          exact Bool.false_ne_true
        exact Or.inr ⟨hsucceeds, hnull, rfl, (if_neg hnull').trans (if_neg hterminate')⟩
  · rw [hdetach]
    exact Or.inl ⟨hrefused, rfl⟩

theorem attach_cases (s : Session b) (pid : DWORD) :
    ((pid = 0 ∨ s.sys.fails (.debugActiveProcess pid) = true ∨ pid ∈ s.sys.debugged) ∧
        s.attach pid = (s, -1)) ∨
      (pid ≠ 0 ∧ s.sys.fails (.debugActiveProcess pid) = false ∧ pid ∉ s.sys.debugged ∧
        ((s.sys.fails (.openProcess pid) = true ∧ s.attach pid =
            ({ s with
              hProcessGlobal := 0
              sys := { s.sys with debugged := insert pid s.sys.debugged }
              uses := [] }, -1)) ∨
          (s.sys.fails (.openProcess pid) = false ∧ s.attach pid =
            ({ s with
              hProcessGlobal := s.sys.handles.next
              debuggedPid := pid
              sys := { s.sys with
                debugged := insert pid s.sys.debugged
                handles := s.sys.handles.insert pid }
              uses := [] }, 0)))) := by
  by_cases hzero : pid = 0
  · exact Or.inl ⟨Or.inl hzero, if_pos hzero⟩
  by_cases hrefused : s.sys.fails (.debugActiveProcess pid) = true ∨ pid ∈ s.sys.debugged
  · refine Or.inl ⟨Or.inr hrefused, ?_⟩
    simp only [attach, if_neg hzero, Processes.debugActiveProcess, if_pos hrefused]
  · obtain ⟨hallowed, hnew⟩ := not_or.mp hrefused
    refine Or.inr ⟨hzero, Bool.eq_false_of_not_eq_true hallowed, hnew, ?_⟩
    cases hopen : s.sys.fails (.openProcess pid) with
    | true =>
      refine Or.inl ⟨rfl, ?_⟩
      simp only [attach, if_neg hzero, Processes.debugActiveProcess, if_neg hrefused,
        Processes.openProcess, hopen, if_true]
    | false =>
      refine Or.inr ⟨rfl, ?_⟩
      simp only [attach, if_neg hzero, Processes.debugActiveProcess, if_neg hrefused,
        Processes.openProcess, hopen, Bool.false_eq_true, if_false]

theorem exit_same (s : Session b) :
    s.exit.1.dbg = s.detach.1.dbg ∧ s.exit.1.sys.debugged = s.detach.1.sys.debugged := by
  unfold exit
  dsimp only
  split_ifs
  · exact ⟨rfl, rfl⟩
  · exact ⟨rfl, rfl⟩
  · exact ⟨rfl, rfl⟩
  · exact ⟨rfl, rfl⟩

def passTimes : ℕ → Session b → Session b
  | 0, s => s
  | n + 1, s => (s.passTimes n).pass

theorem passTimes_eq (n : ℕ) (s : Session b) :
    s.passTimes n = { s with uses := s.uses ++ List.replicate n .passed } := by
  induction n with
  | zero =>
    rw [List.replicate_zero, List.append_nil]
    rfl
  | succ n ih =>
    rw [passTimes, ih, List.replicate_succ', ← List.append_assoc]
    rfl

/-- `injectDLL` does nothing without a handle; else it passes the handle on, and all its
failure paths end with closing it. -/
theorem injectDLL_cases (s : Session b) (pDllPath : LPVOID b) (dllPath : Text) :
    (s.hProcessGlobal = 0 ∧ (s.injectDLL pDllPath dllPath).1 = s) ∨
      (s.InjectionFails ∧ ∃ n os, (s.injectDLL pDllPath dllPath).1 =
        ((s.withOs os).passTimes (n + 1)).closeProcess) ∨
      (s.hProcessGlobal ≠ 0 ∧ ¬ s.InjectionFails ∧ ∃ n os,
        (s.injectDLL pDllPath dllPath).1 = (s.withOs os).passTimes (n + 1)) := by
  unfold injectDLL
  by_cases hnull : s.hProcessGlobal = 0
  · rw [if_pos hnull]
    exact Or.inl ⟨hnull, rfl⟩
  rw [if_neg hnull]
  right
  by_cases h₁ : s.sys.fails .virtualAllocEx = true
  · rw [if_pos h₁]
    exact Or.inl ⟨⟨hnull, Or.inl h₁⟩, 0, s.dbg.os, rfl⟩
  rw [if_neg h₁]
  by_cases h₂ : s.sys.fails .writeProcessMemory = true
  · rw [if_pos h₂]
    exact Or.inl ⟨⟨hnull, Or.inr (Or.inl h₂)⟩, 2, s.dbg.os, rfl⟩
  rw [if_neg h₂]
  dsimp only
  by_cases h₃ : s.sys.fails .getProcAddress = true
  · rw [if_pos h₃]
    exact Or.inl ⟨⟨hnull, Or.inr (Or.inr (Or.inl h₃))⟩, 2, _, rfl⟩
  rw [if_neg h₃]
  by_cases h₄ : s.sys.fails .createRemoteThread = true
  · rw [if_pos h₄]
    exact Or.inl ⟨⟨hnull, Or.inr (Or.inr (Or.inr h₄))⟩, 3, _, rfl⟩
  · rw [if_neg h₄]
    refine Or.inr ⟨hnull, ?_, 2, _, rfl⟩
    rintro ⟨-, h | h | h | h⟩
    · exact h₁ h
    · exact h₂ h
    · exact h₃ h
    · exact h₄ h

theorem operations_run (ops : List (Operation b)) (s : Session b) (h : s.phase ≠ .waiting) :
    ∃ s', Run SessionStep s (ops.map .operation) s' ∧ s'.dbg = ops.foldl Operation.run s.dbg ∧
      s'.phase = s.phase := by
  induction ops generalizing s with
  | nil => exact ⟨s, .nil s, rfl, rfl⟩
  | cons op ops ih =>
    have hphase : (s.operate op).phase = s.phase := s.passIf_phase _
    obtain ⟨s', hrun, hdbg, hs'⟩ := ih (s.operate op) (hphase ▸ h)
    exact ⟨s', .cons ⟨h, rfl⟩ hrun, hdbg, hs'.trans hphase⟩

theorem answer_of_callback {s : Session b} {ev : DebugEvent b} {hThread : HANDLE} {c : Call b}
    (h : s.phase = .callback ev hThread c) (bpType : BreakpointAction) :
    (s.answer bpType).dbg =
        complete ev hThread c bpType { s.dbg with trace := s.dbg.trace ++ [(c, bpType)] } ∧
      (s.answer bpType).phase = if ev.ends then .outside else .waiting := by
  unfold answer
  rw [h]
  cases ev with
  | EXIT_PROCESS _ _ => exact ⟨rfl, rfl⟩
  | _ => exact ⟨rfl, rfl⟩

/-- A round of `loop` whose callback uses operations is a run of moves that does to the
debugger what `handleEvent` does. -/
theorem handleEvent_run (script : Call b → Debugger b → List (Operation b) × BreakpointAction)
    (ev : DebugEvent b) (s : Session b) (hphase : s.phase = .waiting)
    (hloop : s.dbg.dbgLoop = true) :
    ∃ moves s', Run SessionStep s moves s' ∧
      s'.dbg = (s.dbg.handleEvent (performing script) ev).1 ∧
      s'.phase = if (s.dbg.handleEvent (performing script) ev).2 then .outside else .waiting := by
  have hevent : SessionStep s (.event ev) (s.event ev) := ⟨⟨hphase, hloop⟩, rfl⟩
  rw [handleEvent_eq]
  cases hc : (s.dbg.arrive ev).2 with
  | none =>
    refine ⟨_, _, .single hevent, rfl, ?_⟩
    simp only [event, hc]
    rfl
  | some c =>
    let d := (s.dbg.arrive ev).1
    have hcallback : (s.event ev).phase = .callback ev s.dbg.os.handles.next c := by
      simp only [event, hc]
    obtain ⟨s', hrun, hdbg, hs'⟩ := operations_run (script c d).1 (s.event ev) (by simp [hcallback])
    rw [hcallback] at hs'
    have hanswer : SessionStep s' (.answer (script c d).2) (s'.answer (script c d).2) :=
      ⟨⟨_, _, _, hs'⟩, rfl⟩
    obtain ⟨hanswered, hleft⟩ := answer_of_callback hs' (script c d).2
    refine ⟨_, _, (Run.cons hevent hrun).append (.single hanswer), ?_, hleft⟩
    obtain ⟨hstepping, htrace⟩ := foldl_run_record (script c d).1 d
    have hcall : d.call (performing script) c =
        ({ s'.dbg with trace := s'.dbg.trace ++ [(c, (script c d).2)] }, (script c d).2) := by
      have hd : (s.event ev).dbg = d := rfl
      rw [hdbg, hd]
      simp only [Debugger.call, performing]
      rw [← htrace, ← hstepping]
    change _ = (complete ev s.dbg.os.handles.next c (d.call (performing script) c).2
      (d.call (performing script) c).1)
    rw [hanswered, hcall]

end Session

end RoboDbg
