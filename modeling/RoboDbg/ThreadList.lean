import Mathlib.Data.Finset.Basic
import RoboDbg.Foundation.Runs
import RoboDbg.Loop
import RoboDbg.Tracker

/-!
# The thread list and the live threads

Three sources feed `threads`: a creation event appends, a refresh replaces the
whole list, and an exit event leaves it alone. The live threads are kept beside
the debugger; they change when an event arrives, and while its callback runs the
snapshot lists exactly them.
-/

namespace RoboDbg

open Debugger Runs

variable {b : Build}

/-! ## Enumerations -/

def Enumerates (ids : List DWORD) (live : Finset DWORD) : Prop :=
  ∀ tid, ids.count tid = if tid ∈ live then 1 else 0

namespace Enumerates

variable {ids : List DWORD} {live live' : Finset DWORD}

theorem mem_iff (h : Enumerates ids live) (tid : DWORD) : tid ∈ ids ↔ tid ∈ live := by
  rw [← List.count_pos_iff, h tid]
  split_ifs with htid
  · exact iff_of_true Nat.one_pos htid
  · exact iff_of_false (Nat.lt_irrefl 0) htid

theorem iff_eq (h : Enumerates ids live) : Enumerates ids live' ↔ live = live' := by
  constructor
  · intro h'
    ext tid
    rw [← h.mem_iff, ← h'.mem_iff]
  · rintro rfl
    exact h

theorem append_iff (h : Enumerates ids live) (tid : DWORD) :
    Enumerates (ids ++ [tid]) (insert tid live) ↔ tid ∉ live := by
  constructor
  · intro h' hmem
    have hcount := h' tid
    rw [List.count_append, h tid, if_pos hmem, if_pos (Finset.mem_insert_self _ _)] at hcount
    simp at hcount
  · intro hnew u
    rw [List.count_append, h u, List.count_singleton]
    by_cases hu : u = tid
    · subst hu
      simp [hnew]
    · have hne : ¬ tid = u := fun he => hu he.symm
      simp [hu, hne]

theorem of_nodup (hnodup : ids.Nodup) (hmem : ∀ tid, tid ∈ ids ↔ tid ∈ live) :
    Enumerates ids live := by
  intro tid
  rw [hnodup.count]
  simp only [hmem]

end Enumerates

/-! ## What a callback does to the list -/

/-- The operations on hardware breakpoints that a callback may use. -/
inductive HwCall (b : Build)
  | actualizeThreadList
  | hardware (op : TrackerOp b)

namespace HwCall

def run (d : Debugger b) : HwCall b → Debugger b
  | actualizeThreadList => d.actualizeThreadList
  | hardware op => (op.run d).1

def Refreshes : HwCall b → Prop
  | actualizeThreadList => True
  | hardware (.setHardwareBreakpoint _) => True
  | hardware (.clearHardwareBreakpoint _) => True
  | hardware (.setHardwareBreakpointOnThread _) => False
  | hardware (.clearHardwareBreakpointOnThread _ _) => False

end HwCall

namespace Debugger

def operating (script : Call b → Debugger b → List (HwCall b) × BreakpointAction) : Callbacks b :=
  fun c d => ((script c d).1.foldl HwCall.run d, (script c d).2)

def CallRefreshes (script : Call b → Debugger b → List (HwCall b) × BreakpointAction) (c : Call b)
    (d : Debugger b) : Prop :=
  ∃ op ∈ (script c d).1, op.Refreshes

def threadIds (d : Debugger b) : List DWORD := d.threads.map (·.threadId)

variable {d : Debugger b}

theorem setHardwareBreakpointOnThread_threads (bp : HwBp b) (d : Debugger b) :
    (d.setHardwareBreakpointOnThread bp).1.threads = d.threads := by
  unfold setHardwareBreakpointOnThread
  split_ifs
  · rfl
  split
  · rfl
  split
  · rfl
  split
  · rfl
  split
  · rfl
  split <;> rfl

theorem clearHardwareBreakpointOnThread_threads (hThread : HANDLE) (reg : DRReg)
    (d : Debugger b) : (d.clearHardwareBreakpointOnThread hThread reg).1.threads = d.threads := by
  unfold clearHardwareBreakpointOnThread
  split_ifs
  · rfl
  split
  · rfl
  next ctx _ =>
    split
    · rfl
    next os _ =>
      let os₂ := (os.setThreadContext .DEBUG_REGISTERS hThread (ctx.release reg)).getD os
      obtain ⟨tracked, ht⟩ := untrack_eq hThread reg (ctx.drOf reg)
        { d with os := (os₂.resumeThread hThread).getD os₂ }
      change (untrack hThread reg (ctx.drOf reg)
        { d with os := (os₂.resumeThread hThread).getD os₂ }).threads = d.threads
      rw [ht]

theorem forThreads_threads {op : Thread b → Debugger b → Debugger b × Bool}
    (hop : ∀ thread d, (op thread d).1.threads = d.threads) (threads : List (Thread b))
    (d : Debugger b) : (forThreads op threads d).1.threads = d.threads := by
  induction threads generalizing d with
  | nil => rfl
  | cons thread threads ih => exact (ih _).trans (hop thread d)

theorem actualizeThreadList_threadIds (d : Debugger b) :
    d.actualizeThreadList.threadIds = d.openable := by
  obtain ⟨-, -, hids, -⟩ := actualizeThreadList_opened d
  exact hids

theorem setHardwareBreakpoint_threadIds (bp : HwBp b) (d : Debugger b) :
    (d.setHardwareBreakpoint bp).1.threadIds = d.openable := by
  unfold setHardwareBreakpoint
  split_ifs
  · exact actualizeThreadList_threadIds d
  · rw [threadIds, forThreads_threads (fun _ _ => setHardwareBreakpointOnThread_threads _ _)]
    rw [← (actualizeThreadList_frame d).openable]
    exact actualizeThreadList_threadIds _

theorem clearHardwareBreakpoint_threadIds (reg : DRReg) (d : Debugger b) :
    (d.clearHardwareBreakpoint reg).1.threadIds = d.openable := by
  rw [clearHardwareBreakpoint, threadIds,
    forThreads_threads (fun _ _ => clearHardwareBreakpointOnThread_threads _ _ _)]
  exact actualizeThreadList_threadIds d

theorem hwCall_frame (op : HwCall b) (d : Debugger b) : HwFrame d (op.run d) := by
  cases op with
  | actualizeThreadList => exact actualizeThreadList_frame d
  | hardware op =>
    cases op with
    | setHardwareBreakpoint bp => exact setHardwareBreakpoint_frame bp d
    | setHardwareBreakpointOnThread bp => exact setHardwareBreakpointOnThread_frame bp d
    | clearHardwareBreakpoint reg => exact clearHardwareBreakpoint_frame reg d
    | clearHardwareBreakpointOnThread hThread reg =>
      exact clearHardwareBreakpointOnThread_frame hThread reg d

/-- One operation: a refresh, whatever else it does, or no change to the list. -/
theorem hwCall_threadIds (op : HwCall b) (d : Debugger b) :
    (op.Refreshes → (op.run d).threadIds = d.openable) ∧
      (¬ op.Refreshes → (op.run d).threadIds = d.threadIds) := by
  cases op with
  | actualizeThreadList =>
    exact ⟨fun _ => actualizeThreadList_threadIds d, fun hno => absurd trivial hno⟩
  | hardware op =>
    cases op with
    | setHardwareBreakpoint bp =>
      exact ⟨fun _ => setHardwareBreakpoint_threadIds bp d, fun hno => absurd trivial hno⟩
    | clearHardwareBreakpoint reg =>
      exact ⟨fun _ => clearHardwareBreakpoint_threadIds reg d, fun hno => absurd trivial hno⟩
    | setHardwareBreakpointOnThread bp =>
      refine ⟨False.elim, fun _ => ?_⟩
      exact congrArg (List.map _) (setHardwareBreakpointOnThread_threads bp d)
    | clearHardwareBreakpointOnThread hThread reg =>
      refine ⟨False.elim, fun _ => ?_⟩
      exact congrArg (List.map _) (clearHardwareBreakpointOnThread_threads hThread reg d)

theorem foldl_threadIds (ops : List (HwCall b)) (d : Debugger b) :
    ((∃ op ∈ ops, op.Refreshes) → (ops.foldl HwCall.run d).threadIds = d.openable) ∧
      ((¬ ∃ op ∈ ops, op.Refreshes) → (ops.foldl HwCall.run d).threadIds = d.threadIds) := by
  induction ops generalizing d with
  | nil =>
    refine ⟨?_, fun _ => rfl⟩
    rintro ⟨op, hop, -⟩
    cases hop
  | cons op ops ih =>
    obtain ⟨hrefresh, hkeep⟩ := ih (op.run d)
    obtain ⟨hfirst, hsame⟩ := hwCall_threadIds op d
    rw [(hwCall_frame op d).openable] at hrefresh
    rw [List.foldl_cons]
    by_cases hops : ∃ op ∈ ops, op.Refreshes
    · obtain ⟨op', hop', hr⟩ := hops
      refine ⟨fun _ => hrefresh ⟨op', hop', hr⟩, fun hno => ?_⟩
      exact absurd ⟨op', List.mem_cons_of_mem _ hop', hr⟩ hno
    · constructor
      · rintro ⟨op', hop', hr⟩
        rcases List.mem_cons.mp hop' with rfl | hin
        · exact (hkeep hops).trans (hfirst hr)
        · exact absurd ⟨op', hin, hr⟩ hops
      · intro hno
        have hop : ¬ op.Refreshes := fun hr => hno ⟨op, List.mem_cons_self, hr⟩
        exact (hkeep hops).trans (hsame hop)

end Debugger

/-! ## Events about threads -/

/-- A process event with the threads that are alive when it arrives, one thread when the
process was started, several when it was attached to; a new thread; the end of a thread. -/
inductive Arrival (b : Build)
  | process (lpBaseOfImage : LPVOID b) (tids : Finset DWORD)
  | create (dwThreadId : DWORD) (lpThreadLocalBase lpStartAddress : LPVOID b)
  | exit (dwThreadId : DWORD)

namespace Arrival

def event : Arrival b → DebugEvent b
  | process lpBaseOfImage _ => .CREATE_PROCESS lpBaseOfImage
  | create dwThreadId lpThreadLocalBase lpStartAddress =>
    .CREATE_THREAD dwThreadId lpThreadLocalBase lpStartAddress
  | exit dwThreadId => .EXIT_THREAD dwThreadId

def live (before : Finset DWORD) : Arrival b → Finset DWORD
  | process _ tids => before ∪ tids
  | create dwThreadId _ _ => insert dwThreadId before
  | exit dwThreadId => before.erase dwThreadId

end Arrival

/-- The system answers what a refresh asks, with exactly the live threads. -/
structure Os.Lists (os : Os b) (live : Finset DWORD) : Prop where
  getProcessId : os.fails .getProcessId = false
  createToolhelp32Snapshot : os.fails .createToolhelp32Snapshot = false
  openThread : ∀ tid, os.fails (.openThread tid) = false
  snapshot : Enumerates os.processThreads live

structure Populated (b : Build) where
  dbg : Debugger b
  live : Finset DWORD

namespace Populated

variable {script : Call b → Debugger b → List (HwCall b) × BreakpointAction}

/-- `threads` holds one entry for each live thread and no other entry. -/
def Exact (s : Populated b) : Prop := Enumerates s.dbg.threadIds s.live

/-- What the event finds: the debuggee and the system have moved on to `os`. -/
def meets (s : Populated b) (os : Os b) : Debugger b := { s.dbg with os := os }

def after (script : Call b → Debugger b → List (HwCall b) × BreakpointAction) (s : Populated b)
    (turn : Os b × Arrival b) : Populated b where
  dbg := ((s.meets turn.1).handleEvent (operating script) turn.2.event).1
  live := turn.2.live s.live

/-- The callback of an event that brings a process or ends a thread refreshes the list,
unless the live threads stay the same; that of a new thread does not. -/
def Refreshed (script : Call b → Debugger b → List (HwCall b) × BreakpointAction)
    (s : Populated b) (turn : Os b × Arrival b) : Prop :=
  let d := s.meets turn.1
  match turn.2 with
  | .process lpBaseOfImage tids =>
    let entryPoint := Util.getEntryPoint d.os.memory lpBaseOfImage
    CallRefreshes script (.onStart lpBaseOfImage entryPoint)
      { d with baseImageBase := lpBaseOfImage } ∨ tids ⊆ s.live
  | .create dwThreadId lpThreadLocalBase lpStartAddress =>
    ¬ CallRefreshes script (.onThreadCreate d.os.handles.next dwThreadId lpThreadLocalBase
      lpStartAddress) (d.opened dwThreadId) ∧ dwThreadId ∉ s.live
  | .exit dwThreadId => CallRefreshes script (.onThreadExit dwThreadId) d ∨ dwThreadId ∉ s.live

end Populated

def ThreadListStep (script : Call b → Debugger b → List (HwCall b) × BreakpointAction)
    (s : Populated b) (turn : Os b × Arrival b) (s' : Populated b) : Prop :=
  s.dbg.dbgLoop = true ∧ turn.1.Lists (turn.2.live s.live) ∧ s' = s.after script turn

namespace Populated

variable {script : Call b → Debugger b → List (HwCall b) × BreakpointAction} {s s' : Populated b}

theorem openable_of_lists {d : Debugger b} {live : Finset DWORD} (h : d.os.Lists live) :
    d.openable = d.os.processThreads := by
  simp [openable, h.getProcessId, h.createToolhelp32Snapshot, h.openThread]

/-- A callback: the list is that of the live threads if it refreshes, else the old one. -/
theorem call_threadIds (script : Call b → Debugger b → List (HwCall b) × BreakpointAction)
    {d : Debugger b} {live : Finset DWORD} (h : d.os.Lists live) (c : Call b) :
    (CallRefreshes script c d → Enumerates (d.call (operating script) c).1.threadIds live) ∧
      (¬ CallRefreshes script c d →
        (d.call (operating script) c).1.threadIds = d.threadIds) := by
  obtain ⟨hrefresh, hkeep⟩ := foldl_threadIds (script c d).1 d
  refine ⟨fun hc => ?_, hkeep⟩
  have hids := hrefresh hc
  rw [openable_of_lists h] at hids
  change Enumerates ((script c d).1.foldl HwCall.run d).threadIds live
  rw [hids]
  exact h.snapshot

theorem Exact.call (h : s.Exact) {d : Debugger b} {live : Finset DWORD}
    (hids : d.threadIds = s.dbg.threadIds) (hlists : d.os.Lists live) (c : Call b) :
    Enumerates (d.call (operating script) c).1.threadIds live ↔
      CallRefreshes script c d ∨ s.live = live := by
  obtain ⟨hrefresh, hkeep⟩ := call_threadIds script hlists c
  by_cases hc : CallRefreshes script c d
  · exact iff_of_true (hrefresh hc) (Or.inl hc)
  · rw [hkeep hc, hids, Enumerates.iff_eq h]
    exact (or_iff_right hc).symm

theorem Exact.created (h : s.Exact) {os : Os b} {tid : DWORD}
    (hlists : ((s.meets os).opened tid).os.Lists (insert tid s.live)) (base start : LPVOID b) :
    (s.after script (os, .create tid base start)).Exact ↔
      s.Refreshed script (os, .create tid base start) := by
  let d := (s.meets os).opened tid
  let c : Call b := .onThreadCreate (s.meets os).os.handles.next tid base start
  have hids : (s.after script (os, .create tid base start)).dbg.threadIds =
      (d.call (operating script) c).1.threadIds ++ [tid] := by
    have hopen : os.fails (.openThread tid) = false := hlists.openThread tid
    simp only [after, meets, Arrival.event, handleEvent, Os.openThread, hopen, Bool.false_eq_true,
      if_false, threadIds, List.map_append, List.map_cons, List.map_nil]
    rfl
  obtain ⟨hrefresh, hkeep⟩ := call_threadIds script hlists c
  unfold Exact
  rw [hids]
  by_cases hc : CallRefreshes script c d
  · -- the refresh lists the new thread already
    have hidem : insert tid (insert tid s.live) = insert tid s.live := Finset.insert_idem tid s.live
    have htwice := (hrefresh hc).append_iff tid
    rw [hidem] at htwice
    refine iff_of_false (fun hex => ?_) (fun hno => hno.1 hc)
    exact htwice.mp hex (Finset.mem_insert_self tid s.live)
  · rw [hkeep hc]
    refine (Enumerates.append_iff h tid).trans ?_
    exact (and_iff_right hc).symm

theorem Exact.step (h : s.Exact) {turn : Os b × Arrival b}
    (hstep : ThreadListStep script s turn s') : s'.Exact ↔ s.Refreshed script turn := by
  obtain ⟨-, hlists, rfl⟩ := hstep
  obtain ⟨os, a⟩ := turn
  cases a with
  | process base tids =>
    refine (h.call (d := { s.meets os with baseImageBase := base }) rfl hlists _).trans
      (or_congr_right ?_)
    exact Finset.left_eq_union
  | create tid base start =>
    have hlists₁ : ((s.meets os).opened tid).os.Lists (insert tid s.live) :=
      ⟨hlists.1, hlists.2, hlists.3, hlists.4⟩
    exact h.created hlists₁ base start
  | exit tid =>
    refine (h.call (d := s.meets os) rfl hlists _).trans (or_congr_right ?_)
    exact eq_comm.trans Finset.erase_eq_self

end Populated

open Populated

/-- In every run of process, creation and exit events in which `onStart` and
`onThreadExit` refresh the thread list and `onThreadCreate` does not, the list is exact
after each event; and from every state of such a run, the next event keeps it so exactly
if its callback does the same. -/
theorem thread_list_exact {script : Call b → Debugger b → List (HwCall b) × BreakpointAction}
    {s s' : Populated b} {turns : List (Os b × Arrival b)} (hstart : s.Exact)
    (hrun : Run (Restrict (ThreadListStep script) (Refreshed script)) s turns s') :
    s'.Exact ∧ ∀ turn s'', ThreadListStep script s' turn s'' →
      (s''.Exact ↔ s'.Refreshed script turn) := by
  have hexact : s'.Exact :=
    hrun.invariant (fun _ _ _ h hstep => (h.step hstep.1).mpr hstep.2) hstart
  exact ⟨hexact, fun turn s'' hstep => hexact.step hstep⟩

/-- No thread is alive and none is listed. -/
def Populated.start (os : Os b) : Populated b := ⟨new os, ∅⟩

theorem Populated.start_exact (os : Os b) : (Populated.start os).Exact := fun _ => rfl

def Os.withThreads (os : Os b) (tids : List DWORD) : Os b :=
  { os with snapshot := tids.map (fun tid => ⟨os.processId, tid⟩) }

theorem Os.withThreads_lists {os : Os b} (hr : os.Reliable) (tids : List DWORD)
    (hnodup : tids.Nodup) {live : Finset DWORD} (hlive : tids.toFinset = live) :
    (os.withThreads tids).Lists live := by
  have hprocess : (os.withThreads tids).processThreads = tids := by
    simp [withThreads, processThreads, List.filter_map, Function.comp_def]
  refine ⟨hr _, hr _, fun _ => hr _, ?_⟩
  rw [hprocess]
  refine .of_nodup hnodup (fun tid => ?_)
  rw [← hlive, List.mem_toFinset]

theorem thread_list_exact_refreshing :
    let script : Call .x64 → Debugger .x64 → List (HwCall .x64) × BreakpointAction := fun c _ =>
      match c with
      | .onThreadCreate _ _ _ _ => ([], .BREAK)
      | _ => ([.actualizeThreadList], .BREAK)
    let s : Populated .x64 := .start (.ofCode (fun _ => 0x90) [])
    let s₁ := s.after script (s.dbg.os.withThreads [7], .process 0x1000 {7})
    let s₂ := s₁.after script (s₁.dbg.os.withThreads [7, 8], .create 8 0 0)
    let s₃ := s₂.after script (s₂.dbg.os.withThreads [8], .exit 7)
    s₃.Exact := by
  intro script s s₁ s₂ s₃
  have h₁ : ThreadListStep script s (s.dbg.os.withThreads [7], .process 0x1000 {7}) s₁ :=
    ⟨rfl, Os.withThreads_lists (fun _ => rfl) [7] (by decide) (by decide), rfl⟩
  have h₂ : ThreadListStep script s₁ (s₁.dbg.os.withThreads [7, 8], .create 8 0 0) s₂ :=
    ⟨rfl, Os.withThreads_lists (fun _ => rfl) [7, 8] (by decide) (by decide), rfl⟩
  have h₃ : ThreadListStep script s₂ (s₂.dbg.os.withThreads [8], .exit 7) s₃ :=
    ⟨rfl, Os.withThreads_lists (fun _ => rfl) [8] (by decide) (by decide), rfl⟩
  have hone : ∃ op ∈ [HwCall.actualizeThreadList (b := .x64)], op.Refreshes :=
    ⟨_, List.mem_cons_self, trivial⟩
  have hnone : ¬ ∃ op ∈ ([] : List (HwCall .x64)), op.Refreshes := by simp
  exact (thread_list_exact (start_exact _) (.cons ⟨h₁, Or.inl hone⟩
    (.cons ⟨h₂, hnone, by decide⟩ (.cons ⟨h₃, Or.inl hone⟩ (.nil _))))).1

/-- Thread 8 ends and stays in the list. -/
theorem ended_thread_listed :
    let script : Call .x64 → Debugger .x64 → List (HwCall .x64) × BreakpointAction := fun c _ =>
      match c with
      | .onStart _ _ => ([.actualizeThreadList], .BREAK)
      | _ => ([], .BREAK)
    let s : Populated .x64 := .start (.ofCode (fun _ => 0x90) [])
    ∃ turns s', Run (ThreadListStep script) s turns s' ∧ 8 ∉ s'.live ∧ 8 ∈ s'.dbg.threadIds ∧
      ¬ s'.Exact := by
  intro script s
  let s₁ := s.after script (s.dbg.os.withThreads [7], .process 0x1000 {7})
  let s₂ := s₁.after script (s₁.dbg.os.withThreads [7, 8], .create 8 0 0)
  let s₃ := s₂.after script (s₂.dbg.os.withThreads [7], .exit 8)
  have h₁ : ThreadListStep script s (s.dbg.os.withThreads [7], .process 0x1000 {7}) s₁ :=
    ⟨rfl, Os.withThreads_lists (fun _ => rfl) [7] (by decide) (by decide), rfl⟩
  have h₂ : ThreadListStep script s₁ (s₁.dbg.os.withThreads [7, 8], .create 8 0 0) s₂ :=
    ⟨rfl, Os.withThreads_lists (fun _ => rfl) [7, 8] (by decide) (by decide), rfl⟩
  have h₃ : ThreadListStep script s₂ (s₂.dbg.os.withThreads [7], .exit 8) s₃ :=
    ⟨rfl, Os.withThreads_lists (fun _ => rfl) [7] (by decide) (by decide), rfl⟩
  have hlive : 8 ∉ s₃.live := by decide
  have hlisted : 8 ∈ s₃.dbg.threadIds := by decide
  exact ⟨_, s₃, .cons h₁ (.cons h₂ (.cons h₃ (.nil _))), hlive, hlisted,
    fun hex => hlive ((hex.mem_iff 8).mp hlisted)⟩

end RoboDbg
