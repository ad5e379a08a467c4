import Std.Data.TreeMap.Lemmas
import RoboDbg.Win32

/-!
# The members of a `Debugger` object

The state below holds the members that breakpoints, hardware breakpoints and
the event loop use, the loop's local `stepping`, the system the object drives,
and the calls made to the virtual callbacks so far. No constructor sets
`bpAddrToRestore`, `needToRestoreBreakpoint`, `lastBpType`, `restoreHwBP`,
`hwBPToRestore` and `hwBPThreadToRestore`: their first values are arbitrary.
-/

namespace RoboDbg

open Std (TreeMap)

def int3 : BYTE := 0xCC

inductive BreakpointAction
  | BREAK
  | RESTORE
  | SINGLE_STEP
deriving DecidableEq

def BreakpointAction.toInt : BreakpointAction → ℤ
  | .BREAK => 0
  | .RESTORE => 1
  | .SINGLE_STEP => 2

/-- `AccessType`. `getHardwareBreakpoints` casts a two-bit field to it, so the
value 3, which has no enumerator, occurs as well. -/
inductive AccessType
  | EXECUTE
  | WRITE
  | READWRITE
  | unnamed3
deriving DecidableEq

def AccessType.toInt : AccessType → BitVec 32
  | .EXECUTE => 0
  | .WRITE => 1
  | .READWRITE => 2
  | .unnamed3 => 3

def AccessType.ofField : ℕ → AccessType
  | 0 => .EXECUTE
  | 1 => .WRITE
  | 2 => .READWRITE
  | _ => .unnamed3

inductive DRReg
  | NOP
  | DR0
  | DR1
  | DR2
  | DR3
deriving DecidableEq

def DRReg.toInt : DRReg → ℤ
  | .NOP => -1
  | .DR0 => 0
  | .DR1 => 1
  | .DR2 => 2
  | .DR3 => 3

def DRReg.ofSlot : Fin 4 → DRReg
  | 0 => .DR0
  | 1 => .DR1
  | 2 => .DR2
  | 3 => .DR3

inductive BreakpointLength
  | BYTE
  | WORD
  | DWORD
  | QWORD
deriving DecidableEq

def BreakpointLength.toInt : BreakpointLength → BitVec 32
  | .BYTE => 0
  | .WORD => 1
  | .DWORD => 2
  | .QWORD => 3

def BreakpointLength.ofField : ℕ → BreakpointLength
  | 0 => .BYTE
  | 1 => .WORD
  | 2 => .DWORD
  | _ => .QWORD

structure Thread (b : Build) where
  hThread : HANDLE
  threadId : DWORD
  threadBase : LPVOID b
  startAddress : LPVOID b
deriving DecidableEq

structure HwBp (b : Build) where
  hThread : HANDLE
  address : LPVOID b
  reg : DRReg
  type : AccessType
  len : BreakpointLength
deriving DecidableEq

def HwBp.empty {b : Build} : HwBp b := ⟨0, 0, .DR0, .EXECUTE, .BYTE⟩

inductive Call (b : Build)
  | onStart (imageBase entryPoint : DWORD_PTR b)
  | onEnd (exitCode pid : DWORD)
  | onThreadCreate (hThread : HANDLE) (threadId : DWORD) (threadBase startAddress : LPVOID b)
  | onThreadExit (threadId : DWORD)
  | onDLLLoad (address : LPVOID b) (dllName : Text) (entryPoint : DWORD_PTR b)
  | onDLLUnload (address : LPVOID b) (dllName : Text)
  | onBreakpoint (address : LPVOID b) (hThread : HANDLE)
  | onHardwareBreakpoint (address : LPVOID b) (hThread : HANDLE) (reg : DRReg)
  | onAccessViolation (address faultingAddress : LPVOID b) (accessType : DWORD)
  | onDebugString (dbgString : Text)
  | onRIPError (dwError dwType : DWORD)
  | onUnknownException (addr : LPVOID b) (code : DWORD)
  | onUnknownDebugEvent (code : DWORD)
deriving DecidableEq

def Call.returnsAction {b : Build} : Call b → Bool
  | .onBreakpoint _ _ => true
  | .onHardwareBreakpoint _ _ _ => true
  | _ => false

structure Debugger (b : Build) where
  os : Os b
  baseImageBase : DWORD_PTR b
  breakpoints : TreeMap (LPVOID b) BYTE compare
  hwBreakpoints : TreeMap (LPVOID b) (HwBp b) compare
  threads : List (Thread b)
  bpAddrToRestore : LPVOID b
  needToRestoreBreakpoint : Bool
  lastBpType : ℤ
  restoreHwBP : Bool
  hwBPToRestore : HwBp b
  hwBPThreadToRestore : HANDLE
  dbgLoop : Bool
  stepping : Bool
  trace : List (Call b × BreakpointAction)

/-- What a subclass does in a callback: it may use the debugger's own operations
and answers with an action, which only the two breakpoint callbacks return. -/
abbrev Callbacks (b : Build) := Call b → Debugger b → Debugger b × BreakpointAction

namespace Debugger

variable {b : Build}

/-- The initialiser of `baseImageBase`. -/
def typicalImageBase (b : Build) : DWORD_PTR b :=
  -- the other branch tests `__WIN64`, which the compiler defines in neither build
  0x00400000

/-- `Debugger::Debugger()` on a given system; the members that it leaves
uninitialised are arguments. -/
def construct (os : Os b) (bpAddrToRestore : LPVOID b) (needToRestoreBreakpoint : Bool)
    (lastBpType : ℤ) (restoreHwBP : Bool) (hwBPToRestore : HwBp b) (hwBPThreadToRestore : HANDLE) :
    Debugger b where
  os := os
  baseImageBase := typicalImageBase b
  breakpoints := ∅
  hwBreakpoints := ∅
  threads := []
  bpAddrToRestore := bpAddrToRestore
  needToRestoreBreakpoint := needToRestoreBreakpoint
  lastBpType := lastBpType
  restoreHwBP := restoreHwBP
  hwBPToRestore := hwBPToRestore
  hwBPThreadToRestore := hwBPThreadToRestore
  dbgLoop := true
  stepping := false
  trace := []

/-- A constructed object whose memory happened to be zero. -/
def new (os : Os b) : Debugger b := construct os 0 false 0 false .empty 0

/-- A callback cannot reach the local `stepping`, nor the record of calls. -/
def call (cb : Callbacks b) (c : Call b) (d : Debugger b) : Debugger b × BreakpointAction :=
  let r := cb c d
  ({ r.1 with stepping := d.stepping, trace := d.trace ++ [(c, r.2)] }, r.2)

/-- Callbacks that only answer, possibly depending on everything they can see. -/
def answering (ans : Call b → Debugger b → BreakpointAction) : Callbacks b :=
  fun c d => (d, ans c d)

def Armed (d : Debugger b) (a : LPVOID b) : Prop := d.os.memory.bytes a = int3

/-- An int3 that `setBreakpoint` has written and nobody has overwritten since. -/
def Planted (d : Debugger b) (a : LPVOID b) : Prop :=
  d.os.memory.bytes a = int3 ∧ d.os.memory.writer a = .setBreakpoint

@[simp] theorem call_answering (ans : Call b → Debugger b → BreakpointAction) (c : Call b)
    (d : Debugger b) :
    d.call (answering ans) c = ({ d with trace := d.trace ++ [(c, ans c d)] }, ans c d) := rfl

end Debugger
end RoboDbg
