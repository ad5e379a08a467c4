import Mathlib.Logic.Function.Iterate
import RoboDbg.MixedBreakpoints
import RoboDbg.Rewind

/-!
# A debuggee under the debugger

A program is given by what one instruction does to registers and memory. The
bare machine runs it alone. The debugged machine runs it in a thread with debug
registers and a trap flag, in memory that the debugger patches, and hands every
exception to `loop`. The debug registers fault before an instruction, an int3 is
reported behind its address, and the trap flag reports after one instruction.
-/

namespace RoboDbg

open Runs Debugger

variable {b : Build} {σ : Type*}

/-- `data` stands for all registers that the debugger never touches. -/
structure Cpu (b : Build) (σ : Type*) where
  Ip : DWORD_PTR b
  EFlags : DWORD
  data : σ

structure Effect (b : Build) (σ : Type*) where
  cpu : Cpu b σ
  writes : List (LPVOID b × BYTE)

abbrev Exec (b : Build) (σ : Type*) := (LPVOID b → BYTE) → Cpu b σ → Effect b σ

/-! ## The program alone -/

structure Bare (b : Build) (σ : Type*) where
  memory : LPVOID b → BYTE
  cpu : Cpu b σ

def writeAll (ws : List (LPVOID b × BYTE)) (m : LPVOID b → BYTE) : LPVOID b → BYTE :=
  ws.foldl (fun m w => Function.update m w.1 w.2) m

def Bare.next (exec : Exec b σ) (s : Bare b σ) : Bare b σ :=
  ⟨writeAll (exec s.memory s.cpu).writes s.memory, (exec s.memory s.cpu).cpu⟩

/-- The next instruction begins at one of `starts`, none of which holds an int3;
it reads none of them but its own first byte and writes none of them, and the
program leaves the trap flag alone. -/
structure WellBehaved (exec : Exec b σ) (starts : Set (LPVOID b)) (s : Bare b σ) : Prop where
  ip : s.cpu.Ip ∈ starts
  int3 : ∀ a ∈ starts, s.memory a ≠ int3
  trapFlag : s.cpu.EFlags.getLsbD 8 = false
  reads : ∀ m, (∀ a, a ∉ starts ∨ a = s.cpu.Ip → m a = s.memory a) →
    exec m s.cpu = exec s.memory s.cpu
  writes : ∀ w ∈ (exec s.memory s.cpu).writes, w.1 ∉ starts

/-! ## The program in a thread -/

/-- An enabled slot faults before the next instruction. -/
def Context.Faults (ctx : Context b) : Prop :=
  ∃ i s, ctx.slot i = some s ∧ s.type = .EXECUTE ∧ s.address = ctx.Ip

instance (ctx : Context b) : Decidable ctx.Faults :=
  decidable_of_iff
    (∃ i, (ctx.slot i).any (fun s => s.type = .EXECUTE ∧ s.address = ctx.Ip) = true)
    (by simp only [Context.Faults, Option.any_eq_true, decide_eq_true_eq])

namespace Os

def withControl (os : Os b) (tid : DWORD) (ip : DWORD_PTR b) (eflags : DWORD) : Os b :=
  os.withContext tid { os.context tid with Ip := ip, EFlags := eflags }

def perform (os : Os b) (tid : DWORD) (e : Effect b σ) : Os b :=
  withControl
    { os with memory := e.writes.foldl (fun m w => m.store .debuggee w.1 w.2) os.memory }
    tid e.cpu.Ip e.cpu.EFlags

end Os

structure Machine (b : Build) (σ : Type*) where
  dbg : Debugger b
  data : σ

namespace Machine

def cpu (tid : DWORD) (m : Machine b σ) : Cpu b σ :=
  ⟨(m.dbg.os.context tid).Ip, (m.dbg.os.context tid).userFlags, m.data⟩

def report (cb : Callbacks b) (tid : DWORD) (code : DWORD) (a : LPVOID b) (m : Machine b σ) :
    Machine b σ :=
  { m with dbg := m.dbg.handleException cb ⟨code, a, tid, 0, 0⟩ }

def behindInt3 (tid : DWORD) (m : Machine b σ) : Machine b σ :=
  let ctx := m.dbg.os.context tid
  { m with dbg := { m.dbg with os := m.dbg.os.withControl tid (ctx.Ip + 1) ctx.EFlags } }

/-- The thread runs until it has executed one instruction or raised an exception. -/
def step (exec : Exec b σ) (cb : Callbacks b) (tid : DWORD) (m : Machine b σ) : Machine b σ :=
  let os := m.dbg.os
  let ctx := os.context tid
  if ctx.Faults then m.report cb tid EXCEPTION_SINGLE_STEP ctx.Ip
  else if os.memory.bytes ctx.Ip = int3 then
    (m.behindInt3 tid).report cb tid EXCEPTION_BREAKPOINT ctx.Ip
  else
    let e := exec os.memory.bytes (m.cpu tid)
    let m : Machine b σ := ⟨{ m.dbg with os := os.perform tid e }, e.cpu.data⟩
    if ctx.trapFlag then m.report cb tid EXCEPTION_SINGLE_STEP e.cpu.Ip else m

theorem report_run (cb : Callbacks b) (tid code : DWORD) (a : LPVOID b) {m : Machine b σ}
    (hloop : m.dbg.dbgLoop = true) :
    LoopStep (fun _ _ => True) cb m.dbg (.event (.EXCEPTION ⟨code, a, tid, 0, 0⟩))
      (m.report cb tid code a).dbg :=
  .event (.EXCEPTION ⟨code, a, tid, 0, 0⟩) hloop

/-- What the machine does to the debugger is what turns of `loop` do. -/
theorem step_run (exec : Exec b σ) (cb : Callbacks b) (tid : DWORD) {m : Machine b σ}
    (hloop : m.dbg.dbgLoop = true) :
    ∃ turns, Run (LoopStep (fun _ _ => True) cb) m.dbg turns (m.step exec cb tid).dbg := by
  have hmove : ∀ os, LoopStep (fun _ _ => True) cb m.dbg (.debuggee os) { m.dbg with os := os } :=
    fun _ => .debuggee trivial
  have hreport : ∀ os data code a, ∃ turns, Run (LoopStep (fun _ _ => True) cb) m.dbg turns
      (report cb tid code a (⟨{ m.dbg with os := os }, data⟩ : Machine b σ)).dbg := by
    intro os data code a
    let m' : Machine b σ := ⟨{ m.dbg with os := os }, data⟩
    have hloop' : m'.dbg.dbgLoop = true := hloop
    exact ⟨_, .cons (hmove os) (.single (report_run cb tid code a hloop'))⟩
  simp only [step]
  split_ifs
  · exact ⟨_, .single (report_run cb tid _ _ hloop)⟩
  · exact hreport _ _ _ _
  · exact hreport _ _ _ _
  · exact ⟨_, .single (hmove _)⟩

end Machine

/-! ## What an instruction changes -/

theorem foldl_store_bytes (who : Writer) (ws : List (LPVOID b × BYTE)) (m : Memory b) :
    (ws.foldl (fun m w => m.store who w.1 w.2) m).bytes = writeAll ws m.bytes := by
  induction ws generalizing m with
  | nil => rfl
  | cons w ws ih => exact ih _

theorem foldl_store_accessible (who : Writer) (ws : List (LPVOID b × BYTE)) {m : Memory b}
    (h : m.Accessible) : (ws.foldl (fun m w => m.store who w.1 w.2) m).Accessible := by
  induction ws generalizing m with
  | nil => exact h
  | cons w ws ih => exact ih (h.store who w.1 w.2)

theorem writeAll_of_not_mem {ws : List (LPVOID b × BYTE)} {m : LPVOID b → BYTE} {a : LPVOID b}
    (ha : ∀ w ∈ ws, w.1 ≠ a) : writeAll ws m a = m a := by
  induction ws generalizing m with
  | nil => rfl
  | cons w ws ih =>
    have hw : w.1 ≠ a := ha w List.mem_cons_self
    have hws : writeAll ws (Function.update m w.1 w.2) a = Function.update m w.1 w.2 a :=
      ih (fun v hv => ha v (List.mem_cons_of_mem w hv))
    exact hws.trans (Function.update_of_ne (Ne.symm hw) _ _)

theorem Context.slot_withControl (ctx : Context b) (ip : DWORD_PTR b) (eflags : DWORD) :
    ({ ctx with Ip := ip, EFlags := eflags } : Context b).slot = ctx.slot := by
  funext i
  refine slot_congr ?_ (fun _ _ _ => rfl)
  fin_cases i <;> rfl

theorem sameHardware_withControl (d : Debugger b) (tid : DWORD) (memory : Memory b)
    (ip : DWORD_PTR b) (eflags : DWORD) :
    SameHardware d
      { d with os := Os.withControl { d.os with memory := memory } tid ip eflags } := by
  refine ⟨?_, rfl, rfl, rfl, rfl, rfl, rfl⟩
  funext u
  by_cases hu : u = tid
  · rw [hu]
    simp only [Debugger.slots, Os.withControl, Os.context_withContext, Function.update_self]
    exact Context.slot_withControl _ ip eflags
  · simp only [Debugger.slots, Os.withControl, Os.context_withContext, Function.update_of_ne hu]
    rfl

end RoboDbg
