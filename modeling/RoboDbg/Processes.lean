import Mathlib.Data.Finset.Basic
import RoboDbg.Win32

/-!
# Processes of the system

What `start`, `attach`, `detach`, `exit` and `injectDLL` ask of the system: each
call may be refused, and a process is debugged by this program or not.
-/

namespace RoboDbg

inductive ProcessCall
  | createToolhelp32Snapshot
  | createProcessA (commandLine : Text)
  | debugActiveProcess (pid : DWORD)
  | debugActiveProcessStop (pid : DWORD)
  | openProcess (pid : DWORD)
  | terminateProcess
  | virtualAllocEx
  | writeProcessMemory
  | getProcAddress
  | createRemoteThread
deriving DecidableEq

structure ProcessEntry32 where
  szExeFile : Text
  th32ProcessID : DWORD

structure ProcessInformation where
  hProcess : HANDLE
  hThread : HANDLE
  dwProcessId : DWORD
  dwThreadId : DWORD

structure Processes where
  entries : List ProcessEntry32
  /-- The processes that this program debugs. -/
  debugged : Finset DWORD
  handles : HandleTable
  /-- The ids of the next process and of its first thread. -/
  nextProcessId : DWORD
  nextThreadId : DWORD
  fails : ProcessCall → Bool

namespace Processes

variable {sys sys' : Processes} {pid : DWORD}

/-- Nothing is debugged, and nothing is refused but `refused`. -/
def idle (nextProcessId : DWORD) (refused : List ProcessCall) : Processes where
  entries := []
  debugged := ∅
  handles := .empty
  nextProcessId := nextProcessId
  nextThreadId := nextProcessId + 1
  fails c := c ∈ refused

/-- The id of a process that is being debugged is not given out again. -/
def createProcessA (commandLine : Text) (sys : Processes) :
    Option (ProcessInformation × Processes) :=
  if sys.fails (.createProcessA commandLine) ∨ sys.nextProcessId ∈ sys.debugged then none
  else
    let handles := sys.handles.insert sys.nextProcessId
    some (⟨sys.handles.next, handles.next, sys.nextProcessId, sys.nextThreadId⟩,
      { sys with
        debugged := insert sys.nextProcessId sys.debugged
        handles := handles.insert sys.nextThreadId })

/-- A process has one debugger at most. -/
def debugActiveProcess (pid : DWORD) (sys : Processes) : Option Processes :=
  if sys.fails (.debugActiveProcess pid) ∨ pid ∈ sys.debugged then none
  else some { sys with debugged := insert pid sys.debugged }

/-- Only the debugger of a process can stop debugging it. -/
def debugActiveProcessStop (pid : DWORD) (sys : Processes) : Option Processes :=
  if sys.fails (.debugActiveProcessStop pid) ∨ pid ∉ sys.debugged then none
  else some { sys with debugged := sys.debugged.erase pid }

def openProcess (pid : DWORD) (sys : Processes) : Option (HANDLE × Processes) :=
  if sys.fails (.openProcess pid) then none
  else some (sys.handles.next, { sys with handles := sys.handles.insert pid })

def closeHandle (h : HANDLE) (sys : Processes) : Processes :=
  { sys with handles := sys.handles.close h }

/-- The process is gone once its exit event has been taken. -/
def exited (pid : DWORD) (sys : Processes) : Processes :=
  { sys with debugged := sys.debugged.erase pid }

end Processes

namespace Util

/-- The first process of the snapshot with this name, or 0. -/
def findProcessId (processName : Text) (sys : Processes) : DWORD :=
  if sys.fails .createToolhelp32Snapshot then 0
  else
    match sys.entries.find? (fun processInfo => processInfo.szExeFile = processName) with
    | some processInfo => processInfo.th32ProcessID
    | none => 0

end Util

end RoboDbg
