import RoboDbg.Foundation.Loops
import RoboDbg.Win32

/-!
# The freezer plugin

`Freezer` suspends the threads of a process one by one and remembers how it
found them; `restore` writes the remembered values back and resumes. The
plugin reaches threads through handles that live for one pass of a loop, so
`Scheduler` has no handle table: an open handle denotes its thread.
-/

namespace RoboDbg

open Loops

variable {b : Build}

def THREAD_PRIORITY_NORMAL : INT := 0
def THREAD_PRIORITY_ERROR_RETURN : INT := 0x7FFFFFFF
def MAXIMUM_SUSPEND_COUNT : ℕ := 0x7F

structure GroupAffinity (b : Build) where
  Mask : DWORD_PTR b
  Group : WORD
  Reserved : WORD × WORD × WORD
deriving DecidableEq

def GroupAffinity.zero : GroupAffinity b := ⟨0, 0, 0, 0, 0⟩

structure ThreadState (b : Build) where
  tid : DWORD
  dynPriority : INT
  boostDisabled : BOOL
  groupAffinity : GroupAffinity b
  prevSuspendCount : DWORD
  weSuspended : Bool
deriving DecidableEq

/-! ## The system -/

/-- What the system keeps for a thread. -/
structure Schedule (b : Build) where
  suspendCount : ℕ
  priority : { p : INT // p ≠ THREAD_PRIORITY_ERROR_RETURN }
  boostDisabled : Bool
  groupAffinity : GroupAffinity b
deriving DecidableEq

inductive SchedulerCall
  | createToolhelp32Snapshot
  | openThread (tid : DWORD)
  | suspendThread (tid : DWORD)
  | resumeThread (tid : DWORD)
  | getThreadPriority (tid : DWORD)
  | setThreadPriority (tid : DWORD)
  | getThreadPriorityBoost (tid : DWORD)
  | setThreadPriorityBoost (tid : DWORD)
  | getThreadGroupAffinity (tid : DWORD)
  | setThreadGroupAffinity (tid : DWORD)
deriving DecidableEq

structure Scheduler (b : Build) where
  /-- The live threads of all processes, in the order a snapshot lists them. -/
  snapshot : List ThreadEntry32
  distinct : (snapshot.map (·.th32ThreadID)).Nodup
  thread : DWORD → Schedule b
  fails : SchedulerCall → Bool

namespace Scheduler

def live (sys : Scheduler b) : List DWORD := sys.snapshot.map (·.th32ThreadID)

def threadsOf (sys : Scheduler b) (pid : DWORD) : List DWORD :=
  (sys.snapshot.filter (fun te => te.th32OwnerProcessID = pid)).map (·.th32ThreadID)

def withThread (sys : Scheduler b) (tid : DWORD) (s : Schedule b) : Scheduler b :=
  { sys with thread := Function.update sys.thread tid s }

def openThreadHandle (sys : Scheduler b) (tid : DWORD) : Option DWORD :=
  if sys.fails (.openThread tid) ∨ tid ∉ sys.live then none else some tid

/-- `none` stands for the result `(DWORD)-1`, which is also that of a thread that
is suspended as often as the system allows. -/
def suspendThread (sys : Scheduler b) (th : DWORD) : Option (DWORD × Scheduler b) :=
  let s := sys.thread th
  if sys.fails (.suspendThread th) ∨ MAXIMUM_SUSPEND_COUNT ≤ s.suspendCount then none
  else some (BitVec.ofNat 32 s.suspendCount,
    sys.withThread th { s with suspendCount := s.suspendCount + 1 })

def resumeThread (sys : Scheduler b) (th : DWORD) : Option (DWORD × Scheduler b) :=
  let s := sys.thread th
  if sys.fails (.resumeThread th) then none
  else some (BitVec.ofNat 32 s.suspendCount,
    sys.withThread th { s with suspendCount := s.suspendCount - 1 })

def getThreadPriority (sys : Scheduler b) (th : DWORD) : INT :=
  if sys.fails (.getThreadPriority th) then THREAD_PRIORITY_ERROR_RETURN
  else (sys.thread th).priority

def setThreadPriority (sys : Scheduler b) (th : DWORD) (p : INT) : Scheduler b :=
  if sys.fails (.setThreadPriority th) then sys
  else if hp : p ≠ THREAD_PRIORITY_ERROR_RETURN then
    sys.withThread th { sys.thread th with priority := ⟨p, hp⟩ }
  else sys

def getThreadPriorityBoost (sys : Scheduler b) (th : DWORD) : Option BOOL :=
  if sys.fails (.getThreadPriorityBoost th) then none
  else some (if (sys.thread th).boostDisabled then 1 else 0)

def setThreadPriorityBoost (sys : Scheduler b) (th : DWORD) (disable : BOOL) : Scheduler b :=
  if sys.fails (.setThreadPriorityBoost th) then sys
  else sys.withThread th { sys.thread th with boostDisabled := disable ≠ 0 }

def getThreadGroupAffinity (sys : Scheduler b) (th : DWORD) : Option (GroupAffinity b) :=
  if sys.fails (.getThreadGroupAffinity th) then none else some (sys.thread th).groupAffinity

def setThreadGroupAffinity (sys : Scheduler b) (th : DWORD) (ga : GroupAffinity b) :
    Scheduler b :=
  if sys.fails (.setThreadGroupAffinity th) then sys
  else sys.withThread th { sys.thread th with groupAffinity := ga }

def Reliable (sys : Scheduler b) : Prop := ∀ c, sys.fails c = false

end Scheduler

/-! ## Suspending -/

/-- `enumerateThreadIds`. A snapshot that cannot be taken lists nothing. -/
def enumerateThreadIds (sys : Scheduler b) (pid : DWORD) : List DWORD :=
  if sys.fails .createToolhelp32Snapshot then [] else sys.threadsOf pid

/-- One pass of the loop of `suspend` and `suspendByPID`; `none` is the pass that
clears `okAll`. -/
def suspendOne (tid : DWORD) (sys : Scheduler b) : Option (ThreadState b) × Scheduler b :=
  match sys.openThreadHandle tid with
  | none => (none, sys)
  | some th =>
    match sys.suspendThread th with
    | none => (none, sys)
    | some (prev, sys) =>
      let pr := sys.getThreadPriority th
      let st : ThreadState b := {
        tid := tid
        prevSuspendCount := prev
        dynPriority := if pr = THREAD_PRIORITY_ERROR_RETURN then THREAD_PRIORITY_NORMAL else pr
        boostDisabled := (sys.getThreadPriorityBoost th).getD 0
        groupAffinity := (sys.getThreadGroupAffinity th).getD .zero
        weSuspended := true }
      (some st, sys)

structure Suspending (b : Build) where
  states : List (ThreadState b)
  okAll : Bool
  sys : Scheduler b

namespace Suspending

def next (s : Suspending b) (tid : DWORD) : Suspending b :=
  let r := suspendOne tid s.sys
  match r.1 with
  | none => { s with okAll := false, sys := r.2 }
  | some st => { s with states := s.states ++ [st], sys := r.2 }

def result (s : Suspending b) : Option (List (ThreadState b)) :=
  if !s.okAll || s.states.isEmpty then none else some s.states

end Suspending

/-- The common body of `suspend` and `suspendByPID`. -/
def suspendListed (tids : List DWORD) (sys : Scheduler b) :
    Option (List (ThreadState b)) × Scheduler b :=
  if tids.isEmpty then (none, sys)
  else
    let s := tids.foldl Suspending.next ⟨[], true, sys⟩
    (s.result, s.sys)

def suspendByPID (pid : DWORD) (sys : Scheduler b) :
    Option (List (ThreadState b)) × Scheduler b :=
  suspendListed (enumerateThreadIds sys pid) sys

/-- A `Freezer` object; `process_` is null when the handle could not be duplicated. -/
structure Freezer where
  process_ : HANDLE
  pid_ : DWORD

namespace Freezer

def isValid (fz : Freezer) : Bool := fz.process_ ≠ 0

def enumerateThreadIds (fz : Freezer) (sys : Scheduler b) : List DWORD :=
  if fz.isValid then RoboDbg.enumerateThreadIds sys fz.pid_ else []

def suspend (fz : Freezer) (sys : Scheduler b) : Option (List (ThreadState b)) × Scheduler b :=
  suspendListed (fz.enumerateThreadIds sys) sys

end Freezer

/-! ## Restoring -/

/-- One pass of the resume loop, on the system and `ok`. -/
def resumePass (th : DWORD) (s : Scheduler b × Bool) : Pass (Scheduler b × Bool) :=
  match s.1.resumeThread th with
  | none => .done (s.1, false)
  | some (prev, sys) => if prev = 1 then .done (sys, s.2) else .again (sys, s.2)

def resumeLoop (n : ℕ) (th : DWORD) (s : Scheduler b × Bool) : Option (Scheduler b × Bool) :=
  forever (fun s => some (resumePass th s)) n s

/-- One pass of the loop of `restore`; the resume loop may take `n` passes. -/
def restoreOne (n : ℕ) (s : Scheduler b × Bool) (st : ThreadState b) :
    Option (Scheduler b × Bool) :=
  match s.1.openThreadHandle st.tid with
  | none => some (s.1, false)
  | some th =>
    let sys := s.1
    let sys :=
      if st.groupAffinity.Mask ≠ 0 then sys.setThreadGroupAffinity th st.groupAffinity else sys
    let sys := sys.setThreadPriority th st.dynPriority
    let sys := sys.setThreadPriorityBoost th st.boostDisabled
    if !st.weSuspended then some (sys, s.2) else resumeLoop n th (sys, s.2)

/-- The system afterwards and the result; `none` while the loops need more passes. -/
def Freezer.restore (n : ℕ) (fz : Freezer) (states : List (ThreadState b)) (sys : Scheduler b) :
    Option (Scheduler b × Bool) :=
  if !fz.isValid then some (sys, false) else states.foldlM (restoreOne n) (sys, true)

end RoboDbg
