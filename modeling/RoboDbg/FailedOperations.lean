import RoboDbg.Breakpoints
import RoboDbg.HardwareBreakpoints

/-!
# What a failed operation leaves behind

`setBreakpoint` reads a byte, files it and plants the int3 without looking at
the results of the two memory calls. The hardware operations do test theirs;
clearing a slot nevertheless drops the tracker's entry after a refused write.
-/

namespace RoboDbg

open Std (TreeMap)

namespace Debugger

variable {b : Build}

/-! ## `setBreakpoint` on memory that may be inaccessible -/

/-- The local `original` after the read: the byte, or what the local held. -/
def originalByte (d : Debugger b) (a : LPVOID b) : BYTE :=
  (d.os.memory.readByte a).getD d.os.indeterminate

theorem writeByte_memory (who : Writer) (a : LPVOID b) (x : BYTE) (d : Debugger b) :
    (d.writeByte who a x).os.memory =
      if d.os.memory.writable a = true then d.os.memory.store who a x else d.os.memory := by
  by_cases hw : d.os.memory.writable a = true
  · simp [writeByte, Memory.writeProcessMemory, hw, Memory.storeAll]
  · simp [writeByte, Memory.writeProcessMemory, hw]

theorem writeByte_bytes (who : Writer) (a c : LPVOID b) (x : BYTE) (d : Debugger b) :
    (d.writeByte who a x).os.memory.bytes c =
      if c = a ∧ d.os.memory.writable a = true then x else d.os.memory.bytes c := by
  rw [writeByte_memory]
  by_cases hw : d.os.memory.writable a = true
  · simp [hw, Function.update_apply]
  · simp [hw]

@[simp] theorem writeByte_breakpoints (who : Writer) (a : LPVOID b) (x : BYTE) (d : Debugger b) :
    (d.writeByte who a x).breakpoints = d.breakpoints := rfl

theorem setBreakpoint_bytes (a c : LPVOID b) (d : Debugger b) :
    (d.setBreakpoint a).os.memory.bytes c =
      if c = a ∧ d.originalByte a ≠ int3 ∧ d.os.memory.writable a = true then int3
      else d.os.memory.bytes c := by
  by_cases ho : d.originalByte a = int3
  · have hset : d.setBreakpoint a = d := by
      unfold originalByte at ho
      simp [setBreakpoint, ho]
    simp [hset, ho]
  · have hset : d.setBreakpoint a =
        { d with breakpoints := d.breakpoints.insert a (d.originalByte a) }.writeByte
          .setBreakpoint a int3 := by
      unfold originalByte at ho ⊢
      simp [setBreakpoint, ho]
    rw [hset, writeByte_bytes]
    simp [ho]

theorem setBreakpoint_getElem? (a c : LPVOID b) (d : Debugger b) :
    (d.setBreakpoint a).breakpoints[c]? =
      if c = a ∧ d.originalByte a ≠ int3 then some (d.originalByte a)
      else d.breakpoints[c]? := by
  unfold originalByte
  by_cases ho : (d.os.memory.readByte a).getD d.os.indeterminate = int3
  · simp [setBreakpoint, ho]
  · by_cases hc : c = a
    · subst hc
      simp [setBreakpoint, ho]
    · simp [setBreakpoint, ho, hc, TreeMap.getElem?_insert, Ne.symm hc]

/-- Either the breakpoint is set or nothing has changed, at this address; all
other addresses and entries are as before. -/
structure AllOrNothing (a : LPVOID b) (d d' : Debugger b) : Prop where
  here :
    (d'.os.memory.bytes a = int3 ∧
        (d'.breakpoints[a]? = some (d.os.memory.bytes a) ∨
          (d.os.memory.bytes a = int3 ∧ d'.breakpoints[a]? = d.breakpoints[a]?))) ∨
      (d'.os.memory.bytes a = d.os.memory.bytes a ∧ d'.breakpoints[a]? = d.breakpoints[a]?)
  elsewhere : ∀ c, c ≠ a →
    d'.os.memory.bytes c = d.os.memory.bytes c ∧ d'.breakpoints[c]? = d.breakpoints[c]?

/-- A readable address holds an int3 already, can be written, or has its byte
filed already. With an unreadable one it depends on what the local holds. -/
def SetsWholly (a : LPVOID b) (d : Debugger b) : Prop :=
  (d.os.memory.readable a = true ∧
    (d.os.memory.bytes a = int3 ∨ d.os.memory.writable a = true ∨
      d.breakpoints[a]? = some (d.os.memory.bytes a))) ∨
  (d.os.memory.readable a = false ∧
    (d.os.indeterminate = int3 ∨
      (d.os.memory.writable a = true ∧ d.os.indeterminate = d.os.memory.bytes a) ∨
      (d.breakpoints[a]? = some d.os.indeterminate ∧
        (d.os.memory.writable a = false ∨ d.os.memory.bytes a = int3))))

/-- In terms of the local: it is an int3; or the true byte, and the int3 gets
there; or filed already, and memory stays as it is. -/
theorem setsWholly_iff {a : LPVOID b} {d : Debugger b} :
    d.SetsWholly a ↔ d.originalByte a = int3 ∨
      (d.os.memory.writable a = true ∧ d.originalByte a = d.os.memory.bytes a) ∨
      (d.breakpoints[a]? = some (d.originalByte a) ∧
        (d.os.memory.writable a = false ∨ d.os.memory.bytes a = int3)) := by
  unfold SetsWholly originalByte Memory.readByte
  cases hr : d.os.memory.readable a with
  | true => cases hw : d.os.memory.writable a <;> simp
  | false => simp

theorem setBreakpoint_elsewhere {a c : LPVOID b} (d : Debugger b) (hc : c ≠ a) :
    (d.setBreakpoint a).os.memory.bytes c = d.os.memory.bytes c ∧
      (d.setBreakpoint a).breakpoints[c]? = d.breakpoints[c]? := by
  rw [setBreakpoint_bytes, setBreakpoint_getElem?]
  simp [hc]

end Debugger

/-- Setting a breakpoint is all-or-nothing exactly when the byte that was read
is the byte in memory and the int3 gets there, or there is nothing to do. -/
theorem setBreakpoint_allOrNothing_iff {b : Build} (d : Debugger b) (a : LPVOID b) :
    d.AllOrNothing a (d.setBreakpoint a) ↔ d.SetsWholly a := by
  have hbytes := d.setBreakpoint_bytes a a
  have htable := d.setBreakpoint_getElem? a a
  by_cases ho : d.originalByte a = int3
  · have hsame : d.AllOrNothing a (d.setBreakpoint a) := by
      refine ⟨Or.inr ⟨?_, ?_⟩, fun c hc => d.setBreakpoint_elsewhere hc⟩
      · rw [hbytes, if_neg (fun h => h.2.1 ho)]
      · rw [htable, if_neg (fun h => h.2 ho)]
    exact ⟨fun _ => Debugger.setsWholly_iff.mpr (Or.inl ho), fun _ => hsame⟩
  · rw [if_pos ⟨rfl, ho⟩] at htable
    constructor
    · rintro ⟨here, -⟩
      rw [htable, hbytes] at here
      refine Debugger.setsWholly_iff.mpr (Or.inr ?_)
      cases hw : d.os.memory.writable a with
      | true =>
        rw [if_pos ⟨rfl, ho, hw⟩] at here
        rcases here with ⟨-, hx | ⟨hcc, hold⟩⟩ | ⟨hcc, hold⟩
        · exact Or.inl ⟨rfl, Option.some.inj hx⟩
        · exact Or.inr ⟨hold.symm, Or.inr hcc⟩
        · exact Or.inr ⟨hold.symm, Or.inr hcc.symm⟩
      | false =>
        -- without the write the entry must have been there before
        rw [if_neg (fun h => by simp [hw] at h)] at here
        rcases here with ⟨hcc, hx | ⟨-, hold⟩⟩ | ⟨-, hold⟩
        · exact absurd ((Option.some.inj hx).trans hcc) ho
        · exact Or.inr ⟨hold.symm, Or.inl rfl⟩
        · exact Or.inr ⟨hold.symm, Or.inl rfl⟩
    · intro hs
      refine ⟨?_, fun c hc => d.setBreakpoint_elsewhere hc⟩
      rcases Debugger.setsWholly_iff.mp hs with hcc | ⟨hw, hx⟩ | ⟨hold, hstay⟩
      · exact absurd hcc ho
      · rw [if_pos ⟨rfl, ho, hw⟩] at hbytes
        exact Or.inl ⟨hbytes, Or.inl (by rw [htable, hx])⟩
      · refine Or.inr ⟨?_, htable.trans hold.symm⟩
        rcases hstay with hw | hcc
        · rw [hbytes, if_neg (fun h => by simp [hw] at h)]
        · rw [hbytes, hcc, ite_self]

/-- The byte can be read and the int3 cannot be written: the table files a
breakpoint that memory does not hold. -/
theorem setBreakpoint_not_allOrNothing :
    let os : Os .x64 := .ofCode (fun _ => 0x90) [1]
    let d : Debugger .x64 := .new { os with memory := { os.memory with writable := fun _ => false } }
    ¬ d.AllOrNothing 0x401000 (d.setBreakpoint 0x401000) := by
  intro os d h
  rcases h.here with ⟨hcc, -⟩ | ⟨-, htable⟩
  · exact absurd hcc (by decide)
  · exact absurd htable (by decide)

namespace Debugger

variable {b : Build}

/-! ## Hardware operations that report a failure -/

/-- The debug registers, the suspend counts and the tracker are as before. -/
def HardwareUnchanged (d d' : Debugger b) : Prop :=
  d'.os.thread = d.os.thread ∧ ∀ a : LPVOID b, d'.hwBreakpoints[a]? = d.hwBreakpoints[a]?

theorem HardwareUnchanged.refl (d : Debugger b) : d.HardwareUnchanged d := ⟨rfl, fun _ => rfl⟩

/-- A suspension does not change whether a context can be written. -/
theorem setThreadContext_suspended {os os₁ : Os b} {h : HANDLE} {tid : DWORD}
    (hl : os.handles.lookup h = some tid) (h₁ : os.suspendThread h = some os₁)
    (flags : ContextFlags) (ctx : Context b) :
    os₁.setThreadContext flags h ctx = none ↔ os.fails (.setThreadContext tid) = true := by
  obtain ⟨tid₁, -, -, hos₁⟩ := Os.suspendThread_eq_some.mp h₁
  have hl₁ : os₁.handles.lookup h = some tid := by rw [hos₁]; exact hl
  have hfails : os₁.fails = os.fails := by rw [hos₁]; rfl
  unfold Os.setThreadContext
  simp only [hl₁, hfails, ite_eq_left_iff, reduceCtorEq, imp_false, not_not]

section Resume

variable {os os₁ os₂ : Os b} {h : HANDLE} (hresume : ∀ tid, os.fails (.resumeThread tid) = false)
  (h₁ : os.suspendThread h = some os₁)
include hresume h₁

theorem resumeThread_suspendThread :
    ∃ os₂, os₁.resumeThread h = some os₂ ∧ os₂.thread = os.thread := by
  obtain ⟨tid, hl, -, rfl⟩ := Os.suspendThread_eq_some.mp h₁
  refine ⟨_, Os.resumeThread_eq_some.mpr ⟨tid, hl, hresume tid, rfl⟩, ?_⟩
  funext u
  by_cases hu : u = tid
  · subst hu
    simp
  · simp [Os.withThread]

theorem resumeThread_setThreadContext {flags : ContextFlags} {ctx : Context b}
    (h₂ : os₁.setThreadContext flags h ctx = some os₂) : ∃ os₃, os₂.resumeThread h = some os₃ := by
  obtain ⟨tid, hl, -, rfl⟩ := Os.suspendThread_eq_some.mp h₁
  obtain ⟨tid₂, hl₂, -, rfl⟩ := Os.setThreadContext_eq_some.mp h₂
  exact ⟨_, Os.resumeThread_eq_some.mpr ⟨tid₂, hl₂, hresume tid₂, rfl⟩⟩

end Resume

theorem setHardwareBreakpointOnThread_false {bp : HwBp b} {d : Debugger b}
    (hresume : ∀ tid, d.os.fails (.resumeThread tid) = false)
    (h : (d.setHardwareBreakpointOnThread bp).2 = false) :
    d.HardwareUnchanged (d.setHardwareBreakpointOnThread bp).1 := by
  unfold setHardwareBreakpointOnThread at h ⊢
  split_ifs at h ⊢ with hlen
  · exact .refl d
  split at h
  · exact .refl d
  · next ctx hget =>
    split at h
    · exact .refl d
    · next x hassign =>
      split at h
      · exact .refl d
      · next os₁ hsus =>
        split at h
        · next hset =>
          obtain ⟨os₂, hres, hthread⟩ := resumeThread_suspendThread hresume hsus
          rw [hres]
          exact ⟨hthread, fun _ => rfl⟩
        · next os₂ hset =>
          -- the last call is never refused, so the operation succeeds
          obtain ⟨os₃, hres⟩ := resumeThread_setThreadContext hresume hsus hset
          simp [hres] at h

/-- The write of the cleared registers is refused, and the tracker files the
slot's old address for this thread and slot. -/
def DropsEntry (hThread : HANDLE) (reg : DRReg) (d : Debugger b) : Prop :=
  reg ≠ .NOP ∧ ∃ tid, d.os.handles.lookup hThread = some tid ∧
    d.os.fails (.getThreadContext tid) = false ∧ d.os.fails (.suspendThread tid) = false ∧
    d.os.fails (.setThreadContext tid) = true ∧ (d.os.context tid).drOf reg ≠ 0 ∧
    ∃ stored, d.hwBreakpoints[(d.os.context tid).drOf reg]? = some stored ∧
      stored.hThread = hThread ∧ stored.reg = reg

theorem drOf_merge (ctx : Context b) (reg : DRReg) :
    (Context.zero.merge .DEBUG_REGISTERS ctx).drOf reg = ctx.drOf reg := by
  cases reg <;> rfl

theorem invalid_iff {reg : DRReg} : reg.toInt < 0 ∨ reg.toInt > 3 ↔ reg = .NOP := by
  cases reg <;> decide

theorem untrack_unchanged_iff {hThread : HANDLE} {reg : DRReg} {a : LPVOID b} {d : Debugger b} :
    (∀ c : LPVOID b, (d.untrack hThread reg a).hwBreakpoints[c]? = d.hwBreakpoints[c]?) ↔
      ¬ (a ≠ 0 ∧ ∃ stored, d.hwBreakpoints[a]? = some stored ∧ stored.hThread = hThread ∧
        stored.reg = reg) := by
  unfold untrack
  by_cases ha : a = 0
  · simp [ha]
  rw [if_neg ha]
  cases hs : d.hwBreakpoints[a]? with
  | none => simp
  | some stored =>
    by_cases hfiled : stored.hThread = hThread ∧ stored.reg = reg
    · simp only [if_pos hfiled]
      constructor
      · intro hsame
        have hgone := hsame a
        rw [hs] at hgone
        simp at hgone
      · intro hn
        exact absurd ⟨ha, stored, rfl, hfiled⟩ hn
    · simp only [if_neg hfiled, implies_true, true_iff]
      rintro ⟨-, x, hx, hfiled'⟩
      cases hx
      exact hfiled hfiled'

theorem hardwareUnchanged_untrack_iff {hThread : HANDLE} {reg : DRReg} {a : LPVOID b}
    {d : Debugger b} {os : Os b} (hthread : os.thread = d.os.thread) :
    d.HardwareUnchanged ({ d with os := os }.untrack hThread reg a) ↔
      ¬ (a ≠ 0 ∧ ∃ stored, d.hwBreakpoints[a]? = some stored ∧ stored.hThread = hThread ∧
        stored.reg = reg) := by
  obtain ⟨tracked, he⟩ := untrack_eq hThread reg a { d with os := os }
  have hos : ({ d with os := os }.untrack hThread reg a).os.thread = d.os.thread := by
    rw [he]
    exact hthread
  rw [← untrack_unchanged_iff (d := { d with os := os })]
  exact ⟨And.right, fun h => ⟨hos, h⟩⟩

/-- Clearing the slot gets as far as suspending the thread. -/
structure Suspends (hThread : HANDLE) (reg : DRReg) (tid : DWORD) (d : Debugger b) : Prop where
  valid : reg ≠ .NOP
  lookup : d.os.handles.lookup hThread = some tid
  getThreadContext : d.os.fails (.getThreadContext tid) = false
  suspendThread : d.os.fails (.suspendThread tid) = false

/-- The exits of the operation: before the suspension, after a refused write, and the last. -/
theorem clearHardwareBreakpointOnThread_exits (hThread : HANDLE) (reg : DRReg) {d : Debugger b}
    (hresume : ∀ tid, d.os.fails (.resumeThread tid) = false) :
    ((∀ tid, ¬ d.Suspends hThread reg tid) ∧
        d.clearHardwareBreakpointOnThread hThread reg = (d, false)) ∨
      ∃ tid, d.Suspends hThread reg tid ∧
        ((d.os.fails (.setThreadContext tid) = true ∧ ∃ os : Os b, os.thread = d.os.thread ∧
            d.clearHardwareBreakpointOnThread hThread reg =
              ({ d with os := os }.untrack hThread reg ((d.os.context tid).drOf reg), false)) ∨
          (d.os.fails (.setThreadContext tid) = false ∧
            (d.clearHardwareBreakpointOnThread hThread reg).2 = true)) := by
  unfold clearHardwareBreakpointOnThread
  split_ifs with hreg
  · exact Or.inl ⟨fun tid h => h.valid (invalid_iff.mp hreg), rfl⟩
  cases hget : d.os.getThreadContext .DEBUG_REGISTERS hThread with
  | none =>
    refine Or.inl ⟨fun tid h => ?_, rfl⟩
    rw [Os.getThreadContext_eq_some.mpr ⟨tid, h.lookup, h.getThreadContext, rfl⟩] at hget
    cases hget
  | some ctx =>
    obtain ⟨tid, hl, hg, rfl⟩ := Os.getThreadContext_eq_some.mp hget
    cases hsus : d.os.suspendThread hThread with
    | none =>
      refine Or.inl ⟨fun tid h => ?_, rfl⟩
      rw [Os.suspendThread_eq_some.mpr ⟨tid, h.lookup, h.suspendThread, rfl⟩] at hsus
      cases hsus
    | some os₁ =>
      obtain ⟨tid₁, hl₁, hs, -⟩ := Os.suspendThread_eq_some.mp hsus
      obtain rfl : tid = tid₁ := Option.some.inj (hl.symm.trans hl₁)
      refine Or.inr ⟨tid, ⟨fun hn => hreg (invalid_iff.mpr hn), hl, hg, hs⟩, ?_⟩
      dsimp only
      rw [drOf_merge]
      generalize (Context.zero.merge .DEBUG_REGISTERS (d.os.context tid)).release reg = released
      have hrefused := setThreadContext_suspended hl hsus .DEBUG_REGISTERS released
      cases hset : os₁.setThreadContext .DEBUG_REGISTERS hThread released with
      | none =>
        obtain ⟨os₂, hres, hthread⟩ := resumeThread_suspendThread hresume hsus
        refine Or.inl ⟨hrefused.mp hset, os₂, hthread, ?_⟩
        simp only [Option.getD_none, hres, Option.getD_some, Option.isSome_none, Bool.false_and]
      | some os₂ =>
        obtain ⟨os₃, hres⟩ := resumeThread_setThreadContext hresume hsus hset
        refine Or.inr ⟨?_, by simp only [Option.getD_some, hres, Option.isSome_some, Bool.and_self]⟩
        rw [hset] at hrefused
        exact Bool.eq_false_of_not_eq_true (fun h => by cases hrefused.mpr h)

theorem clearHardwareBreakpointOnThread_false_iff {hThread : HANDLE} {reg : DRReg}
    {d : Debugger b} (hresume : ∀ tid, d.os.fails (.resumeThread tid) = false) :
    ((d.clearHardwareBreakpointOnThread hThread reg).2 = false →
        d.HardwareUnchanged (d.clearHardwareBreakpointOnThread hThread reg).1) ↔
      ¬ d.DropsEntry hThread reg := by
  obtain ⟨hnever, hexit⟩ | ⟨tid, hs, ⟨hrefused, os, hthread, hexit⟩ | ⟨hwritten, hok⟩⟩ :=
    clearHardwareBreakpointOnThread_exits hThread reg hresume
  · rw [hexit]
    refine iff_of_true (fun _ => .refl d) ?_
    rintro ⟨hvalid, tid, hl, hg, hsuspend, -⟩
    exact hnever tid ⟨hvalid, hl, hg, hsuspend⟩
  · rw [hexit]
    refine (forall_prop_of_true rfl).trans ?_
    rw [hardwareUnchanged_untrack_iff hthread]
    refine not_congr ⟨?_, ?_⟩
    · rintro ⟨ha, hfiled⟩
      exact ⟨hs.valid, tid, hs.lookup, hs.getThreadContext, hs.suspendThread, hrefused, ha, hfiled⟩
    · rintro ⟨-, tid', hl', -, -, -, ha, hfiled⟩
      obtain rfl : tid = tid' := Option.some.inj (hs.lookup.symm.trans hl')
      exact ⟨ha, hfiled⟩
  · rw [hok]
    refine iff_of_true (fun h => by cases h) ?_
    rintro ⟨-, tid', hl', -, -, hrefused, -⟩
    obtain rfl : tid = tid' := Option.some.inj (hs.lookup.symm.trans hl')
    rw [hwritten] at hrefused
    cases hrefused

end Debugger

/-- A failed hardware operation changes nothing, except that clearing a slot
forgets an entry whose registers could not be written. -/
theorem failed_hardware_unchanged_iff {b : Build} (d : Debugger b) (bp : HwBp b) (hThread : HANDLE)
    (reg : DRReg) (hresume : ∀ tid, d.os.fails (.resumeThread tid) = false) :
    ((d.setHardwareBreakpointOnThread bp).2 = false →
        d.HardwareUnchanged (d.setHardwareBreakpointOnThread bp).1) ∧
      (((d.clearHardwareBreakpointOnThread hThread reg).2 = false →
          d.HardwareUnchanged (d.clearHardwareBreakpointOnThread hThread reg).1) ↔
        ¬ d.DropsEntry hThread reg) :=
  ⟨Debugger.setHardwareBreakpointOnThread_false hresume,
    Debugger.clearHardwareBreakpointOnThread_false_iff hresume⟩

/-- A debuggee with thread 7 open under handle 1, whose slot 0 watches `0x5000`;
the tracker files it, and writing thread contexts is refused. -/
def refusingWrites : Debugger .x64 :=
  let os : Os .x64 := .ofCode (fun _ => 0x90) [7]
  let d : Debugger .x64 := .new { os with handles := os.handles.insert 7 }
  let d := (d.setHardwareBreakpointOnThread ⟨1, 0x5000, .DR0, .WRITE, .DWORD⟩).1
  { d with os := { d.os with fails := fun c => c = .setThreadContext 7 } }

theorem failed_hardware_unchanged_iff_refusingWrites :
    ((refusingWrites.setHardwareBreakpointOnThread ⟨1, 0x6000, .DR1, .WRITE, .BYTE⟩).2 = false →
        refusingWrites.HardwareUnchanged
          (refusingWrites.setHardwareBreakpointOnThread ⟨1, 0x6000, .DR1, .WRITE, .BYTE⟩).1) ∧
      (((refusingWrites.clearHardwareBreakpointOnThread 1 .DR0).2 = false →
          refusingWrites.HardwareUnchanged
            (refusingWrites.clearHardwareBreakpointOnThread 1 .DR0).1) ↔
        ¬ refusingWrites.DropsEntry 1 .DR0) :=
  failed_hardware_unchanged_iff _ _ _ _ (fun _ => rfl)

/-- The entry of slot 0 is gone, although the slot is still enabled. -/
theorem clearHardwareBreakpointOnThread_changes :
    (∀ tid, refusingWrites.os.fails (.resumeThread tid) = false) ∧
      ¬ ((refusingWrites.clearHardwareBreakpointOnThread 1 .DR0).2 = false →
        refusingWrites.HardwareUnchanged
          (refusingWrites.clearHardwareBreakpointOnThread 1 .DR0).1) := by
  refine ⟨fun _ => rfl, fun h => ?_⟩
  obtain ⟨-, htable⟩ := h (by decide +kernel)
  have hgone := htable 0x5000
  revert hgone
  decide +kernel

end RoboDbg
