import RoboDbg.Orphans

/-!
# Rewinding the threads that trapped

A thread that executes an int3 stops one byte behind it, and its event waits
until `loop` takes it. The loop rewinds the thread if the address is listed when
the event is handled, so an entry erased by the `BREAK` answer to another
thread's hit leaves the waiting ones inside the patched instruction.
-/

namespace RoboDbg

open Runs Debugger

variable {b : Build}

/-- A thread stopped behind an int3; `planted` says that `setBreakpoint` had
written the int3 when the thread executed it. -/
structure Trap (b : Build) where
  tid : DWORD
  address : LPVOID b
  planted : Bool
deriving DecidableEq

def Trap.event (t : Trap b) (info : DWORD_PTR b × DWORD_PTR b) : ExceptionEvent b :=
  ⟨EXCEPTION_BREAKPOINT, t.address, t.tid, info⟩

/-- The debugger, and the traps whose events it has not handled yet. -/
structure Queued (b : Build) where
  dbg : Debugger b
  queue : List (Trap b)

inductive QueueTurn (b : Build)
  | debuggee (os : Os b)
  | trap (tid : DWORD) (a : LPVOID b)
  | handle (t : Trap b) (info : DWORD_PTR b × DWORD_PTR b)
  | event (ev : DebugEvent b)

/-- The thread is rewound to the address and reported there, and nothing else is reported. -/
def Rewound (d d' : Debugger b) (t : Trap b) : Prop :=
  (d'.os.context t.tid).Ip = t.address ∧
    ∃ bpType, d'.trace = d.trace ++ [(.onBreakpoint t.address d.os.handles.next, bpType)]

namespace Queued

def trapped (s : Queued b) (tid : DWORD) (a : LPVOID b) : Queued b where
  dbg := { s.dbg with
    os := s.dbg.os.withContext tid { s.dbg.os.context tid with Ip := a + 1 } }
  queue := s.queue ++ [⟨tid, a, decide (s.dbg.os.memory.writer a = .setBreakpoint)⟩]

def handled (ans : Call b → Debugger b → BreakpointAction) (s : Queued b) (t : Trap b)
    (info : DWORD_PTR b × DWORD_PTR b) : Queued b where
  dbg := s.dbg.handleException (answering ans) (t.event info)
  queue := s.queue.erase t

/-- What the other threads may do: the stopped ones stay where they are. -/
structure Halted (s : Queued b) (os : Os b) : Prop where
  unforged : s.dbg.Unforged os
  reliable : os.Reliable
  ip : ∀ t ∈ s.queue, (os.context t.tid).Ip = (s.dbg.os.context t.tid).Ip

end Queued

/-- Threads trap in any order and their events are handled in any order; events
other than breakpoints come in between. -/
inductive QueueStep (ans : Call b → Debugger b → BreakpointAction) :
    Queued b → QueueTurn b → Queued b → Prop
  | debuggee {s : Queued b} {os : Os b} (h : s.Halted os) :
      QueueStep ans s (.debuggee os) { s with dbg := { s.dbg with os := os } }
  | trap {s : Queued b} {tid : DWORD} {a : LPVOID b} (hbyte : s.dbg.Armed a)
      (hfree : tid ∉ s.queue.map Trap.tid) : QueueStep ans s (.trap tid a) (s.trapped tid a)
  | handle {s : Queued b} {t : Trap b} (info : DWORD_PTR b × DWORD_PTR b) (hmem : t ∈ s.queue)
      (hloop : s.dbg.dbgLoop = true) : QueueStep ans s (.handle t info) (s.handled ans t info)
  | event {s : Queued b} {ev : DebugEvent b} (hloop : s.dbg.dbgLoop = true)
      (hev : ∀ e, ev = .EXCEPTION e → e.ExceptionCode ≠ EXCEPTION_BREAKPOINT) :
      QueueStep ans s (.event ev) { s with dbg := (s.dbg.handleEvent (answering ans) ev).1 }

namespace Debugger

variable {d d' d'' : Debugger b} {ans : Call b → Debugger b → BreakpointAction} {hThread : HANDLE}

/-! ## What waiting traps depend on -/

structure KeepsTraps (d d' : Debugger b) : Prop where
  ip : ∀ tid, (d'.os.context tid).Ip = (d.os.context tid).Ip
  userFlags : ∀ tid, (d'.os.context tid).userFlags = (d.os.context tid).userFlags
  fails : d'.os.fails = d.os.fails
  listed : ∀ a ∈ d.breakpoints, a ∈ d'.breakpoints

theorem KeepsTraps.trans (h : KeepsTraps d d') (h' : KeepsTraps d' d'') : KeepsTraps d d'' :=
  ⟨fun tid => (h'.ip tid).trans (h.ip tid), fun tid => (h'.userFlags tid).trans (h.userFlags tid),
    h'.fails.trans h.fails, fun a ha => h'.listed a (h.listed a ha)⟩

theorem KeepsTraps.of_same (hthread : d'.os.thread = d.os.thread)
    (hfails : d'.os.fails = d.os.fails) (hbps : d'.breakpoints = d.breakpoints) :
    KeepsTraps d d' := by
  refine ⟨fun tid => ?_, fun tid => ?_, hfails, fun a ha => ?_⟩
  · rw [Os.context, Os.context, hthread]
  · rw [Os.context, Os.context, hthread]
  · rwa [hbps]

theorem HwFrame.keepsTraps (h : HwFrame d d') : KeepsTraps d d' := by
  refine ⟨h.ip, fun tid => ?_, h.fails, fun a ha => ?_⟩
  · rw [Context.userFlags, Context.userFlags, h.eflags]
  · rwa [h.breakpoints]

theorem keepsTraps_setBreakpoint (a : LPVOID b) (d : Debugger b) :
    KeepsTraps d (d.setBreakpoint a) := by
  have hf := setBreakpoint_frame a d
  refine ⟨fun tid => ?_, fun tid => ?_, hf.fails, fun x hx => ?_⟩
  · rw [Os.context, Os.context, hf.thread]
  · rw [Os.context, Os.context, hf.thread]
  · simp only [setBreakpoint]
    split_ifs
    · exact Std.TreeMap.mem_insert.mpr (Or.inr hx)
    · exact hx

theorem enableSingleStep_context (hThread : HANDLE) (d : Debugger b) (tid : DWORD) :
    ((d.enableSingleStep hThread).os.context tid).Ip = (d.os.context tid).Ip ∧
      ((d.enableSingleStep hThread).os.context tid).userFlags = (d.os.context tid).userFlags := by
  unfold enableSingleStep
  split
  · exact ⟨rfl, rfl⟩
  next ctx hctx =>
    cases hset : d.os.setThreadContext .CONTROL hThread ctx.withTrapFlag with
    | none => exact ⟨rfl, rfl⟩
    | some os =>
      obtain ⟨u, hl, -, rfl⟩ := Os.getThreadContext_eq_some.mp hctx
      obtain ⟨v, hl', -, rfl⟩ := Os.setThreadContext_eq_some.mp hset
      obtain rfl : u = v := Option.some.inj (hl.symm.trans hl')
      simp only [Option.getD_some, Os.context_withContext]
      by_cases htid : tid = u
      · rw [htid, Function.update_self]
        exact ⟨rfl, Context.userFlags_withTrapFlag (d.os.context u)⟩
      · rw [Function.update_of_ne htid]
        exact ⟨rfl, rfl⟩

theorem keepsTraps_enableSingleStep (hThread : HANDLE) (d : Debugger b) :
    KeepsTraps d (d.enableSingleStep hThread) := by
  have hf := enableSingleStep_frame hThread d
  have hcontext := enableSingleStep_context hThread d
  refine ⟨fun tid => (hcontext tid).1, fun tid => (hcontext tid).2, hf.fails, fun a ha => ?_⟩
  rwa [hf.breakpoints]

theorem keepsTraps_restorePending (d : Debugger b) : KeepsTraps d d.restorePending := by
  have hflags : ∀ (d : Debugger b) (x y : Bool),
      KeepsTraps d { d with restoreHwBP := x, needToRestoreBreakpoint := y } :=
    fun _ _ _ => .of_same rfl rfl rfl
  unfold restorePending
  split_ifs
  · exact (setHardwareBreakpoint_frame _ d).keepsTraps.trans (hflags _ _ _)
  · exact (keepsTraps_setBreakpoint _ d).trans (hflags _ _ _)
  · exact .of_same rfl rfl rfl

theorem keepsTraps_handleStep (a : LPVOID b) :
    KeepsTraps d (d.handleStep (answering ans) a hThread) := by
  have hpending := keepsTraps_restorePending d
  simp only [handleStep, call_answering]
  split_ifs
  · refine hpending.trans ?_
    simp only [answerStep]
    split_ifs
    · let d₁ : Debugger b := { d.restorePending with
        trace := d.restorePending.trace ++
          [(.onBreakpoint a hThread, ans (.onBreakpoint a hThread) d.restorePending)]
        bpAddrToRestore := a
        needToRestoreBreakpoint := true
        lastBpType := (ans (.onBreakpoint a hThread) d.restorePending).toInt }
      have h₁ : KeepsTraps d.restorePending d₁ := .of_same rfl rfl rfl
      have h₂ := h₁.trans (keepsTraps_enableSingleStep hThread d₁)
      exact h₂.trans (.of_same rfl rfl rfl)
    · exact .of_same rfl rfl rfl
  · exact hpending.trans (.of_same rfl rfl rfl)

theorem keepsTraps_answerHardware (a : LPVOID b) (reg : DRReg) (bpType : BreakpointAction)
    (d : Debugger b) : KeepsTraps d (d.answerHardware a hThread reg bpType) := by
  cases bpType with
  | BREAK => exact (clearHardwareBreakpoint_frame reg d).keepsTraps
  | SINGLE_STEP =>
    have h₁ := keepsTraps_enableSingleStep hThread d
    have h₂ : KeepsTraps d { d.enableSingleStep hThread with stepping := true } :=
      h₁.trans (.of_same rfl rfl rfl)
    exact h₂.trans (clearHardwareBreakpoint_frame reg _).keepsTraps
  | RESTORE =>
    have h₁ : KeepsTraps d (d.afterHardware a hThread reg) := .of_same rfl rfl rfl
    have h₂ := h₁.trans (clearHardwareBreakpointOnThread_frame hThread reg _).keepsTraps
    have h₃ := h₂.trans (keepsTraps_enableSingleStep hThread _)
    rw [answerHardware_restore]
    exact h₃.trans (.of_same rfl rfl rfl)

theorem keepsTraps_handleHardware (code : DWORD) (a : LPVOID b) :
    KeepsTraps d (d.handleHardware (answering ans) code a hThread) := by
  have hcall : ∀ trace, KeepsTraps d { d with trace := trace } := fun _ => .of_same rfl rfl rfl
  have hanswer : ∀ trace reg bpType,
      KeepsTraps d (answerHardware a hThread reg bpType { d with trace := trace }) :=
    fun trace reg bpType => (hcall trace).trans (keepsTraps_answerHardware a reg bpType _)
  simp only [handleHardware, call_answering]
  split_ifs
  · exact hanswer _ _ _
  · exact hcall _

theorem keepsTraps_handleException {e : ExceptionEvent b}
    (hbp : e.ExceptionCode ≠ EXCEPTION_BREAKPOINT) :
    KeepsTraps d (d.handleException (answering ans) e) := by
  cases ho : d.os.fails (.openThread e.dwThreadId) with
  | true =>
    rw [handleException_of_refused ho]
    exact .of_same rfl rfl rfl
  | false =>
    rw [handleException_of_opened ho]
    have hopened : KeepsTraps d (d.opened e.dwThreadId) := .of_same rfl rfl rfl
    have hdispatch : KeepsTraps (d.opened e.dwThreadId)
        ((d.opened e.dwThreadId).dispatch (answering ans) e d.os.handles.next) := by
      apply dispatch_elim
      case breakpoint => exact fun hcode => absurd hcode hbp
      case step => exact fun _ _ => keepsTraps_handleStep _
      case hardware => exact fun _ _ => keepsTraps_handleHardware _ _
      case other => exact fun _ _ => .of_same rfl rfl rfl
    exact (hopened.trans hdispatch).trans (.of_same rfl rfl rfl)

theorem keepsTraps_handleEvent {ev : DebugEvent b}
    (hev : ∀ e, ev = .EXCEPTION e → e.ExceptionCode ≠ EXCEPTION_BREAKPOINT) :
    KeepsTraps d (d.handleEvent (answering ans) ev).1 := by
  apply handleEvent_elim
  case exception => exact fun e he => keepsTraps_handleException (hev e he)
  case refused => exact .of_same rfl rfl rfl
  case call => exact fun _ _ => .of_same rfl rfl rfl
  case started => exact fun _ _ _ => .of_same rfl rfl rfl
  case created => exact fun _ _ _ _ => .of_same rfl rfl rfl

/-! ## Handling a trap -/

/-- The thread of a hit goes back by one byte, and steps unless the answer is
`BREAK`; the hit is reported, and at most the address hit is erased. -/
structure Hit (d d' : Debugger b) (tid : DWORD) (a : LPVOID b) (hThread : HANDLE)
    (bpType : BreakpointAction) : Prop where
  ip : (d'.os.context tid).Ip = (d.os.context tid).Ip - 1
  other : ∀ u, u ≠ tid → (d'.os.context u).Ip = (d.os.context u).Ip
  userFlags : ∀ u, (d'.os.context u).userFlags = (d.os.context u).userFlags
  trapFlag : (d'.os.context tid).trapFlag =
    (decide (bpType ≠ .BREAK) || (d.os.context tid).trapFlag)
  trace : d'.trace = d.trace ++ [(.onBreakpoint a hThread, bpType)]
  fails : d'.os.fails = d.os.fails
  listed : ∀ x ∈ d.breakpoints, (bpType = .BREAK → x ≠ a) → x ∈ d'.breakpoints

theorem answerBreakpoint_context (a : LPVOID b) (bpType : BreakpointAction) (d : Debugger b)
    (tid : DWORD) :
    ((d.answerBreakpoint a hThread bpType).os.context tid).Ip = (d.os.context tid).Ip ∧
      ((d.answerBreakpoint a hThread bpType).os.context tid).userFlags =
        (d.os.context tid).userFlags := by
  have hstep := enableSingleStep_context hThread d tid
  cases bpType with
  | BREAK => exact ⟨rfl, rfl⟩
  | RESTORE => exact hstep
  | SINGLE_STEP => exact hstep

theorem enableSingleStep_trapFlag {tid : DWORD} (hr : d.os.Reliable)
    (hl : d.os.handles.lookup hThread = some tid) :
    ((d.enableSingleStep hThread).os.context tid).trapFlag = true := by
  rw [enableSingleStep_eq hr hl, Os.context_withContext, Function.update_self]
  exact Context.trapFlag_withTrapFlag _

theorem answerBreakpoint_trapFlag (a : LPVOID b) (bpType : BreakpointAction) {tid : DWORD}
    (hr : d.os.Reliable) (hl : d.os.handles.lookup hThread = some tid) :
    ((d.answerBreakpoint a hThread bpType).os.context tid).trapFlag =
      (decide (bpType ≠ .BREAK) || (d.os.context tid).trapFlag) := by
  have hstep := enableSingleStep_trapFlag hr hl
  cases bpType with
  | BREAK => rfl
  | RESTORE => exact hstep
  | SINGLE_STEP => exact hstep

theorem answerBreakpoint_listed {a x : LPVOID b} {bpType : BreakpointAction} {d : Debugger b}
    (hx : x ∈ d.breakpoints) (hne : bpType = .BREAK → x ≠ a) :
    x ∈ (d.answerBreakpoint a hThread bpType).breakpoints := by
  have hf := enableSingleStep_frame hThread d
  cases bpType with
  | BREAK =>
    change x ∈ d.breakpoints.erase a
    rw [Std.TreeMap.mem_erase]
    exact ⟨fun heq => hne rfl (Std.LawfulEqCmp.eq_of_compare heq).symm, hx⟩
  | RESTORE =>
    change x ∈ (d.enableSingleStep hThread).breakpoints
    rwa [hf.breakpoints]
  | SINGLE_STEP =>
    change x ∈ (d.enableSingleStep hThread).breakpoints
    rwa [hf.breakpoints]

theorem hit_handleBreakpoint {tid : DWORD} {a : LPVOID b} (hr : d.os.Reliable)
    (hl : d.os.handles.lookup hThread = some tid) (ha : a ∈ d.breakpoints) :
    Hit d (d.handleBreakpoint (answering ans) a hThread) tid a hThread
      (ans (.onBreakpoint a hThread) ((d.restoreBreakpoint a).decrementIP hThread)) := by
  obtain ⟨x, hx⟩ := exists_filed ha
  have hf := restoreBreakpoint_frame a d
  have hr₁ : (d.restoreBreakpoint a).os.Reliable := by
    intro c
    rw [hf.fails]
    exact hr c
  have hl₁ : (d.restoreBreakpoint a).os.handles.lookup hThread = some tid := by
    rw [hf.handles]
    exact hl
  have hcontext : (d.restoreBreakpoint a).os.context = d.os.context := by
    funext u
    rw [Os.context, Os.context, hf.thread]
  rw [handleBreakpoint_of_listed hx, call_answering]
  generalize ans (.onBreakpoint a hThread) ((d.restoreBreakpoint a).decrementIP hThread) = bpType
  rw [decrementIP_eq hr₁ hl₁]
  let d₂ : Debugger b := { d.restoreBreakpoint a with
    os := (d.restoreBreakpoint a).os.withContext tid
      ((d.restoreBreakpoint a).os.context tid).stepBack }
  have hr₂ : d₂.os.Reliable := hr₁
  have hl₂ : d₂.os.handles.lookup hThread = some tid := hl₁
  have hanswer := fun trace => answerBreakpoint_frame a hThread bpType { d₂ with trace := trace }
  have htrap : ∀ trace,
      ((answerBreakpoint a hThread bpType { d₂ with trace := trace }).os.context tid).trapFlag =
        (decide (bpType ≠ .BREAK) || (d₂.os.context tid).trapFlag) :=
    fun trace => answerBreakpoint_trapFlag a bpType hr₂ hl₂
  refine ⟨?_, fun u hu => ?_, fun u => ?_, ?_, ?_, ?_,
    fun y hy hne => answerBreakpoint_listed ?_ hne⟩
  · rw [(answerBreakpoint_context a bpType _ tid).1, Os.context_withContext, Function.update_self,
      hcontext]
    rfl
  · rw [(answerBreakpoint_context a bpType _ u).1, Os.context_withContext,
      Function.update_of_ne hu, hcontext]
  · rw [(answerBreakpoint_context a bpType _ u).2, Os.context_withContext, hcontext]
    by_cases hu : u = tid
    · rw [hu, Function.update_self]
      rfl
    · rw [Function.update_of_ne hu]
  · refine (htrap _).trans ?_
    simp only [d₂, Os.context_withContext, Function.update_self, hcontext]
    rfl
  · rw [(hanswer _).trace]
    cases bpType <;> simp only [afterHit] <;> rw [hf.trace]
  · rw [(hanswer _).fails]
    cases bpType <;> simp only [afterHit] <;> exact hf.fails
  · change y ∈ (d.restoreBreakpoint a).breakpoints
    rwa [restoreBreakpoint_breakpoints]

theorem hit_handleException {e : ExceptionEvent b} (hr : d.os.Reliable)
    (hbp : e.ExceptionCode = EXCEPTION_BREAKPOINT) (ha : e.ExceptionAddress ∈ d.breakpoints) :
    Hit d (d.handleException (answering ans) e) e.dwThreadId e.ExceptionAddress
      d.os.handles.next (d.hitAnswer ans e) := by
  have hr₁ : (d.opened e.dwThreadId).os.Reliable := hr
  have ha₁ : e.ExceptionAddress ∈ (d.opened e.dwThreadId).breakpoints := ha
  have hhit : Hit (d.opened e.dwThreadId) ((d.opened e.dwThreadId).handleBreakpoint (answering ans)
      e.ExceptionAddress d.os.handles.next) e.dwThreadId e.ExceptionAddress d.os.handles.next
      (d.hitAnswer ans e) := hit_handleBreakpoint hr₁ (lookup_opened e.dwThreadId d) ha₁
  rw [handleException_of_opened (hr _), dispatch_breakpoint hbp]
  exact ⟨hhit.ip, hhit.other, hhit.userFlags, hhit.trapFlag, hhit.trace, hhit.fails, hhit.listed⟩

theorem handleException_of_not_listed {e : ExceptionEvent b}
    (ho : d.os.fails (.openThread e.dwThreadId) = false)
    (hbp : e.ExceptionCode = EXCEPTION_BREAKPOINT) (ha : e.ExceptionAddress ∉ d.breakpoints) :
    d.handleException (answering ans) e = (d.opened e.dwThreadId).closing d.os.handles.next := by
  have ha₁ : e.ExceptionAddress ∉ (d.opened e.dwThreadId).breakpoints := ha
  rw [handleException_of_opened ho, dispatch_breakpoint hbp,
    handleBreakpoint_of_not_listed (Std.TreeMap.getElem?_eq_none ha₁)]

/-- A waiting trap is rewound and reported exactly if its address is listed. -/
theorem rewound_iff_listed (hr : d.os.Reliable) {t : Trap b} (info : DWORD_PTR b × DWORD_PTR b)
    (hip : (d.os.context t.tid).Ip = t.address + 1) :
    Rewound d (d.handleException (answering ans) (t.event info)) t ↔
      t.address ∈ d.breakpoints := by
  constructor
  · rintro ⟨-, bpType, htrace⟩
    by_contra ha
    rw [handleException_of_not_listed (hr _) rfl ha] at htrace
    have hself : d.trace = d.trace ++ _ := htrace
    simp at hself
  · intro ha
    have hhit : Hit d (d.handleException (answering ans) (t.event info)) t.tid t.address
        d.os.handles.next (d.hitAnswer ans (t.event info)) := hit_handleException hr rfl ha
    refine ⟨?_, _, hhit.trace⟩
    rw [hhit.ip, hip, BitVec.add_sub_cancel]

end Debugger

/-! ## Runs -/

namespace Queued

variable {s s' : Queued b} {turn : QueueTurn b} {ans : Call b → Debugger b → BreakpointAction}

/-- Threads whose event waits stand behind the byte they executed. -/
structure Stopped (s : Queued b) : Prop where
  reliable : s.dbg.os.Reliable
  ip : ∀ t ∈ s.queue, (s.dbg.os.context t.tid).Ip = t.address + 1
  distinct : (s.queue.map Trap.tid).Nodup

structure Waiting (s : Queued b) : Prop where
  clean : s.dbg.Clean
  reliable : s.dbg.os.Reliable
  ip : ∀ t ∈ s.queue, (s.dbg.os.context t.tid).Ip = t.address + 1
  distinct : (s.queue.map Trap.tid).Nodup

def Recognised (s : Queued b) : Prop :=
  ∀ t ∈ s.queue, t.planted = true → t.address ∈ s.dbg.breakpoints

/-- A hit is answered `BREAK` only while no other thread waits on an int3 that
`setBreakpoint` wrote there. -/
def Unshared (ans : Call b → Debugger b → BreakpointAction) (s : Queued b) : QueueTurn b → Prop
  | .handle t info => t.address ∈ s.dbg.breakpoints →
      s.dbg.hitAnswer ans (t.event info) = .BREAK →
      ∀ u ∈ s.queue.erase t, u.planted = true → u.address ≠ t.address
  | _ => True

theorem Waiting.stopped (h : Waiting s) : Stopped s := ⟨h.reliable, h.ip, h.distinct⟩

theorem Stopped.ne_tid (h : Stopped s) {t u : Trap b} (ht : t ∈ s.queue)
    (hu : u ∈ s.queue.erase t) : u ∈ s.queue ∧ u.tid ≠ t.tid := by
  have hnodup : s.queue.Nodup := h.distinct.of_map _
  obtain ⟨hne, hmem⟩ := hnodup.mem_erase_iff.mp hu
  refine ⟨hmem, fun htid => hne ?_⟩
  exact List.inj_on_of_nodup_map h.distinct hmem ht htid

theorem answering_eq_scripted (ans : Call b → Debugger b → BreakpointAction) :
    answering ans = scripted (fun c d => ([], ans c d)) := rfl

theorem Waiting.clean_handleEvent (h : Waiting s) (ev : DebugEvent b) :
    (s.dbg.handleEvent (answering ans) ev).1.Clean := by
  rw [answering_eq_scripted]
  refine (h.clean.handleEvent ev).1 ?_
  cases ev with
  | EXCEPTION e =>
    rintro - ⟨-, hmem⟩
    cases hmem
  | _ => trivial

theorem Stopped.hit (h : Stopped s) (ans : Call b → Debugger b → BreakpointAction) {t : Trap b}
    (info : DWORD_PTR b × DWORD_PTR b) (ha : t.address ∈ s.dbg.breakpoints) :
    Hit s.dbg (s.handled ans t info).dbg t.tid t.address s.dbg.os.handles.next
      (s.dbg.hitAnswer ans (t.event info)) := hit_handleException h.reliable rfl ha

theorem Stopped.not_hit (h : Stopped s) (ans : Call b → Debugger b → BreakpointAction) {t : Trap b}
    (info : DWORD_PTR b × DWORD_PTR b) (ha : t.address ∉ s.dbg.breakpoints) :
    (s.handled ans t info).dbg = (s.dbg.opened t.tid).closing s.dbg.os.handles.next :=
  handleException_of_not_listed (h.reliable _) rfl ha

theorem Stopped.handled_ip (h : Stopped s) (t : Trap b) (info : DWORD_PTR b × DWORD_PTR b)
    {u : DWORD} (hu : u ≠ t.tid) :
    ((s.handled ans t info).dbg.os.context u).Ip = (s.dbg.os.context u).Ip := by
  by_cases ha : t.address ∈ s.dbg.breakpoints
  · exact (h.hit ans info ha).other u hu
  · rw [h.not_hit ans info ha]
    rfl

theorem Stopped.handled (h : Stopped s) (ans : Call b → Debugger b → BreakpointAction)
    {t : Trap b} (ht : t ∈ s.queue) (info : DWORD_PTR b × DWORD_PTR b) :
    Stopped (s.handled ans t info) := by
  have hfails : (s.handled ans t info).dbg.os.fails = s.dbg.os.fails := by
    by_cases ha : t.address ∈ s.dbg.breakpoints
    · exact (h.hit ans info ha).fails
    · rw [h.not_hit ans info ha]
      rfl
  refine ⟨fun c => ?_, fun u hu => ?_, ?_⟩
  · rw [hfails]
    exact h.reliable c
  · obtain ⟨hmem, hne⟩ := h.ne_tid ht hu
    exact (h.handled_ip t info hne).trans (h.ip u hmem)
  · exact h.distinct.sublist (List.erase_sublist.map _)

theorem Waiting.handled (h : Waiting s) {t : Trap b} (ht : t ∈ s.queue)
    (info : DWORD_PTR b × DWORD_PTR b) : Waiting (s.handled ans t info) := by
  have hstopped := h.stopped.handled ans ht info
  exact ⟨h.clean_handleEvent (.EXCEPTION (t.event info)), hstopped.reliable, hstopped.ip,
    hstopped.distinct⟩

theorem Stopped.trapped (h : Stopped s) {tid : DWORD} (a : LPVOID b)
    (hfree : tid ∉ s.queue.map Trap.tid) : Stopped (s.trapped tid a) := by
  refine ⟨h.reliable, fun u hu => ?_, ?_⟩
  · simp only [Queued.trapped, Os.context_withContext]
    rcases List.mem_append.mp hu with hold | hnew
    · have hne : u.tid ≠ tid := by
        rintro rfl
        exact hfree (List.mem_map_of_mem hold)
      rw [Function.update_of_ne hne]
      exact h.ip u hold
    · rw [List.mem_singleton.mp hnew, Function.update_self]
  · rw [Queued.trapped, List.map_append, List.nodup_append]
    refine ⟨h.distinct, List.nodup_singleton _, fun x hx y hy => ?_⟩
    rw [List.map_singleton, List.mem_singleton] at hy
    rintro rfl
    rw [hy] at hx
    exact hfree hx

theorem Waiting.trapped (h : Waiting s) {tid : DWORD} (a : LPVOID b)
    (hfree : tid ∉ s.queue.map Trap.tid) : Waiting (s.trapped tid a) := by
  have hstopped := h.stopped.trapped a hfree
  exact ⟨h.clean.of_same rfl rfl, hstopped.reliable, hstopped.ip, hstopped.distinct⟩

theorem Waiting.step (h : Waiting s) (hstep : QueueStep ans s turn s') : Waiting s' := by
  cases hstep with
  | debuggee hh =>
    refine ⟨h.clean.debuggee hh.unforged, hh.reliable, fun t ht => ?_, h.distinct⟩
    exact (hh.ip t ht).trans (h.ip t ht)
  | trap hbyte hfree => exact h.trapped _ hfree
  | handle info hmem _ => exact h.handled hmem info
  | event _ hev =>
    have hk : KeepsTraps s.dbg (s.dbg.handleEvent (answering ans) _).1 :=
      keepsTraps_handleEvent hev
    refine ⟨h.clean_handleEvent _, fun c => ?_, fun t ht => ?_, h.distinct⟩
    · rw [hk.fails]
      exact h.reliable c
    · exact (hk.ip t.tid).trans (h.ip t ht)

theorem Recognised.handled (h : Recognised s) (hw : Waiting s) {t : Trap b} (ht : t ∈ s.queue)
    {info : DWORD_PTR b × DWORD_PTR b} (hok : Unshared ans s (.handle t info)) :
    Recognised (s.handled ans t info) := by
  intro u hu hplanted
  have hlisted := h u (hw.stopped.ne_tid ht hu).1 hplanted
  by_cases ha : t.address ∈ s.dbg.breakpoints
  · exact (hw.stopped.hit ans info ha).listed _ hlisted
      (fun hbreak => hok ha hbreak u hu hplanted)
  · rw [hw.stopped.not_hit ans info ha]
    exact hlisted

theorem Recognised.step (h : Recognised s) (hw : Waiting s)
    (hstep : Restrict (QueueStep ans) (Unshared ans) s turn s') : Recognised s' := by
  obtain ⟨hstep, hok⟩ := hstep
  cases hstep with
  | debuggee _ => exact h
  | trap hbyte _ =>
    intro u hu hplanted
    rcases List.mem_append.mp hu with hold | hnew
    · exact h u hold hplanted
    · rw [List.mem_singleton.mp hnew] at hplanted ⊢
      exact hw.clean.noOrphan _ ⟨hbyte, of_decide_eq_true hplanted⟩
  | handle info hmem _ => exact h.handled hw hmem hok
  | event _ hev =>
    intro u hu hplanted
    exact (keepsTraps_handleEvent hev).listed _ (h u hu hplanted)

end Queued

/-- In every run a waiting thread is rewound and reported when its event is
handled exactly if its address is still listed; and in every run in which a hit
is answered `BREAK` only while no other thread waits on the same planted int3,
every thread that trapped on a planted int3 is. -/
theorem traps_rewound {b : Build} {ans : Call b → Debugger b → BreakpointAction} {s : Queued b}
    (hclean : s.dbg.Clean) (hr : s.dbg.os.Reliable) (hqueue : s.queue = []) :
    (∀ turns s', Run (QueueStep ans) s turns s' → ∀ t ∈ s'.queue, ∀ info,
        (Rewound s'.dbg (s'.handled ans t info).dbg t ↔ t.address ∈ s'.dbg.breakpoints)) ∧
      ∀ turns s', Run (Restrict (QueueStep ans) (Queued.Unshared ans)) s turns s' →
        ∀ t ∈ s'.queue, t.planted = true → ∀ info,
          Rewound s'.dbg (s'.handled ans t info).dbg t := by
  have hwait : s.Waiting := by
    refine ⟨hclean, hr, fun t ht => ?_, ?_⟩
    · rw [hqueue] at ht
      cases ht
    · rw [hqueue]
      exact List.nodup_nil
  have hrec : s.Recognised := by
    intro t ht
    rw [hqueue] at ht
    cases ht
  constructor
  · intro turns s' hrun t ht info
    have hw : s'.Waiting := hrun.invariant (fun _ _ _ h hstep => h.step hstep) hwait
    exact rewound_iff_listed hw.reliable info (hw.ip t ht)
  · intro turns s' hrun t ht hplanted info
    have hkeep : ∀ s turn s', s.Waiting ∧ s.Recognised →
        Restrict (QueueStep ans) (Queued.Unshared ans) s turn s' → s'.Waiting ∧ s'.Recognised :=
      fun _ _ _ h hstep => ⟨h.1.step hstep.1, h.2.step h.1 hstep⟩
    obtain ⟨hw, hrecognised⟩ := hrun.invariant hkeep ⟨hwait, hrec⟩
    exact (rewound_iff_listed hw.reliable info (hw.ip t ht)).mpr (hrecognised t ht hplanted)

theorem traps_rewound_restore :
    let ans : Call .x64 → Debugger .x64 → BreakpointAction := fun _ _ => .RESTORE
    let s : Queued .x64 := ⟨(new (.ofCode (fun _ => 0x90) [7, 8])).setBreakpoint 5, []⟩
    let s₂ := (s.trapped 7 5).trapped 8 5
    let s₃ := s₂.handled ans ⟨7, 5, true⟩ (0, 0)
    Rewound s₃.dbg (s₃.handled ans ⟨8, 5, true⟩ (0, 0)).dbg ⟨8, 5, true⟩ := by
  intro ans s s₂ s₃
  have h₁ : Restrict (QueueStep ans) (Queued.Unshared ans) s (.trap 7 5) (s.trapped 7 5) := by
    refine ⟨.trap ?_ (by decide), trivial⟩
    unfold Armed
    decide
  have h₂ : Restrict (QueueStep ans) (Queued.Unshared ans) (s.trapped 7 5) (.trap 8 5) s₂ := by
    refine ⟨.trap ?_ (by decide), trivial⟩
    unfold Armed
    decide
  have h₃ : Restrict (QueueStep ans) (Queued.Unshared ans) s₂ (.handle ⟨7, 5, true⟩ (0, 0)) s₃ :=
    ⟨.handle (0, 0) (by decide) (by decide), fun _ hbreak => by cases hbreak⟩
  have hclean : s.dbg.Clean := (Clean.ofCode (fun _ => 0x90) [7, 8]).setBreakpoint 5
  exact (traps_rewound hclean (fun _ => rfl) rfl).2 _ s₃
    (.cons h₁ (.cons h₂ (.cons h₃ (.nil _)))) ⟨8, 5, true⟩ (by decide) rfl (0, 0)

/-- The same with `BREAK`: thread 8 stays at 6, behind the first byte of the
instruction that has been put back at 5. -/
theorem shared_break_not_rewound :
    let ans : Call .x64 → Debugger .x64 → BreakpointAction := fun _ _ => .BREAK
    let s : Queued .x64 := ⟨(new (.ofCode (fun _ => 0x90) [7, 8])).setBreakpoint 5, []⟩
    let s₂ := (s.trapped 7 5).trapped 8 5
    let s₃ := s₂.handled ans ⟨7, 5, true⟩ (0, 0)
    (∃ turns, Run (QueueStep ans) s turns s₃) ∧ ⟨8, 5, true⟩ ∈ s₃.queue ∧
      ¬ Rewound s₃.dbg (s₃.handled ans ⟨8, 5, true⟩ (0, 0)).dbg ⟨8, 5, true⟩ := by
  intro ans s s₂ s₃
  have h₁ : QueueStep ans s (.trap 7 5) (s.trapped 7 5) := by
    refine .trap ?_ (by decide)
    unfold Armed
    decide
  have h₂ : QueueStep ans (s.trapped 7 5) (.trap 8 5) s₂ := by
    refine .trap ?_ (by decide)
    unfold Armed
    decide
  have h₃ : QueueStep ans s₂ (.handle ⟨7, 5, true⟩ (0, 0)) s₃ :=
    .handle (0, 0) (by decide) (by decide)
  refine ⟨⟨_, .cons h₁ (.cons h₂ (.cons h₃ (.nil _)))⟩, by decide, ?_⟩
  rintro ⟨hip, -⟩
  revert hip
  decide

end RoboDbg
