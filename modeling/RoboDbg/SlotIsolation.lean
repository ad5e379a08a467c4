import RoboDbg.FailedOperations
import RoboDbg.HardwareRestore

/-!
# Slots do not disturb each other

An operation on a slot writes the slot's address register and the bits of `Dr7` that
belong to it, with values that do not depend on what was there. So operations on
different slots commute, and a clear takes back a set made any number of operations
before. Only the upper half of `Dr7` is shared: the masks of slot 3 reach into it.
-/

namespace RoboDbg

variable {b : Build}

/-! ## What a set writes -/

namespace Context

/-- The two contexts differ in one slot only: its enable bit, its field and its
address register. -/
structure SameBut (i : Fin 4) (ctx ctx' : Context b) : Prop where
  dr7 : ∀ k, ctx'.Dr7.getLsbD k ≠ ctx.Dr7.getLsbD k →
    k = i.val * 2 ∨ (16 + i.val * 4 ≤ k ∧ k < 20 + i.val * 4)
  dr : ∀ j, j ≠ i → ctx'.dr j = ctx.dr j

/-- An assignment reaches the upper half only with a field of slot 3 whose top bit is set. -/
theorem upperClear_assign_iff {ctx ctx' : Context .x64} {bp : HwBp .x64} {i : Fin 4}
    (hupper : ctx.UpperClear) (hreg : bp.reg = .ofSlot i) (ha : ctx.assign bp = some ctx') :
    ctx'.UpperClear ↔ ¬ (i = 3 ∧ (bp.len = .DWORD ∨ bp.len = .QWORD)) := by
  obtain ⟨ctx₁, ha₁, hdr7, -, -, -⟩ := ctx.assign_eq hreg
  obtain rfl : ctx' = ctx₁ := Option.some.inj (ha.symm.trans ha₁)
  have hbit : ∀ k, 32 ≤ k → k < Build.bits .x64 → ctx'.Dr7.getLsbD k =
      decide (i = 3 ∧ (bp.len = .DWORD ∨ bp.len = .QWORD)) := by
    intro k hk hkw
    rw [hdr7, getLsbD_assignDr7_of_le _ _ hk hkw hreg, hupper k hk, Bool.false_and, Bool.false_or,
      msb_fields]
  constructor
  · intro h hlen
    have h32 := hbit 32 le_rfl (by decide)
    rw [h 32 le_rfl, decide_eq_true hlen] at h32
    cases h32
  · intro hlen k hk
    by_cases hkw : k < Build.bits .x64
    · rw [hbit k hk hkw, decide_eq_false hlen]
    · exact BitVec.getLsbD_of_ge _ _ (not_lt.mp hkw)

theorem sameBut_assign {ctx ctx' : Context b} {bp : HwBp b} {i : Fin 4}
    (hupper : ctx.UpperClear) (hupper' : ctx'.UpperClear) (hreg : bp.reg = .ofSlot i)
    (ha : ctx.assign bp = some ctx') : SameBut i ctx ctx' := by
  obtain ⟨ctx₁, ha₁, hdr7, -, -, hdr⟩ := ctx.assign_eq hreg
  obtain rfl : ctx' = ctx₁ := Option.some.inj (ha.symm.trans ha₁)
  constructor
  · intro k hne
    have hk : k < 32 := by
      by_contra hk
      exact hne ((hupper' k (not_lt.mp hk)).trans (hupper k (not_lt.mp hk)).symm)
    by_contra hout
    rw [not_or] at hout
    apply hne
    rw [hdr7, getLsbD_assignDr7 _ hreg hk, if_neg hout.1, if_neg hout.2]
  · intro j hj
    rw [hdr, Function.update_of_ne hj]

end Context

/-- From a context whose upper half of `Dr7` is clear, a successful set touches its own
slot alone and leaves the upper half clear, except in slot 3 for four and eight bytes. -/
theorem setHardwareBreakpointOnThread_sameBut_iff {d : Debugger .x64} {bp : HwBp .x64} {i : Fin 4}
    {tid : DWORD} (hset : (d.setHardwareBreakpointOnThread bp).2 = true)
    (hl : d.os.handles.lookup bp.hThread = some tid) (hreg : bp.reg = .ofSlot i)
    (hupper : (d.os.context tid).UpperClear) :
    ((d.os.context tid).SameBut i ((d.setHardwareBreakpointOnThread bp).1.os.context tid) ∧
        ((d.setHardwareBreakpointOnThread bp).1.os.context tid).UpperClear) ↔
      ¬ (i = 3 ∧ (bp.len = .DWORD ∨ bp.len = .QWORD)) := by
  obtain ⟨tid', ctx', hl', ha, -, he⟩ := Debugger.setHardwareBreakpointOnThread_true hset
  obtain rfl : tid = tid' := Option.some.inj (hl.symm.trans hl')
  have hctx : (d.setHardwareBreakpointOnThread bp).1.os.context tid = ctx' := by
    rw [he, Os.context_withContext, Function.update_self]
  rw [hctx, ← Context.upperClear_assign_iff hupper hreg ha]
  constructor
  · exact fun h => h.2
  · exact fun h => ⟨Context.sameBut_assign hupper h hreg ha, h⟩

/-- A four-byte watch in slot 3 of a thread whose registers are all zero. -/
theorem setHardwareBreakpointOnThread_upper :
    let d : Debugger .x64 := (Debugger.new (.ofCode (fun _ => 0x90) [7])).actualizeThreadList
    let bp : HwBp .x64 := ⟨1, 0x1000, .DR3, .WRITE, .DWORD⟩
    (d.setHardwareBreakpointOnThread bp).2 = true ∧ (d.os.context 7).Dr7 = 0 ∧
      ((d.setHardwareBreakpointOnThread bp).1.os.context 7).Dr7 = 0xFFFFFFFF90000040 ∧
      ¬ ((d.setHardwareBreakpointOnThread bp).1.os.context 7).UpperClear := by
  refine ⟨by decide, by decide, by decide, fun h => ?_⟩
  exact absurd (h 32 le_rfl) (by decide)

theorem setHardwareBreakpointOnThread_sameBut_word :
    let d : Debugger .x64 := (Debugger.new (.ofCode (fun _ => 0x90) [7])).actualizeThreadList
    let bp : HwBp .x64 := ⟨1, 0x1000, .DR3, .WRITE, .WORD⟩
    ((d.os.context 7).SameBut 3 ((d.setHardwareBreakpointOnThread bp).1.os.context 7) ∧
        ((d.setHardwareBreakpointOnThread bp).1.os.context 7).UpperClear) ↔
      ¬ ((3 : Fin 4) = 3 ∧ (BreakpointLength.WORD = .DWORD ∨ BreakpointLength.WORD = .QWORD)) :=
  setHardwareBreakpointOnThread_sameBut_iff (by decide) (by decide) rfl
    (fun k _ => BitVec.getLsbD_zero)

/-! ## Operations on different slots commute -/

namespace Context

variable (dr7 : DWORD_PTR b) {bp bp' : HwBp b} {i j : Fin 4}

theorem releaseDr7_assignDr7 (hreg : bp.reg = .ofSlot i) :
    releaseDr7 (assignDr7 dr7 bp) (.ofSlot i) = releaseDr7 dr7 (.ofSlot i) := by
  apply BitVec.eq_of_getLsbD_eq
  intro k hkw
  by_cases h : SlotBit i k
  · rw [getLsbD_releaseDr7_of_slotBit _ hkw h, getLsbD_releaseDr7_of_slotBit _ hkw h]
  · rw [getLsbD_releaseDr7_of_not_slotBit _ hkw h, getLsbD_assignDr7_of_not_slotBit _ hreg hkw h,
      getLsbD_releaseDr7_of_not_slotBit _ hkw h]

theorem releaseDr7_assignDr7_comm (hreg : bp.reg = .ofSlot j) (hij : i ≠ j) :
    releaseDr7 (assignDr7 dr7 bp) (.ofSlot i) = assignDr7 (releaseDr7 dr7 (.ofSlot i)) bp := by
  apply BitVec.eq_of_getLsbD_eq
  intro k hkw
  by_cases hj : SlotBit j k
  · rw [getLsbD_releaseDr7_of_not_slotBit _ hkw (hj.ne hij),
      getLsbD_assignDr7_of_slotBit _ hreg hkw hj,
      getLsbD_assignDr7_of_slotBit (releaseDr7 _ _) hreg hkw hj]
  · rw [getLsbD_assignDr7_of_not_slotBit _ hreg hkw hj]
    by_cases hi : SlotBit i k
    · rw [getLsbD_releaseDr7_of_slotBit _ hkw hi, getLsbD_releaseDr7_of_slotBit _ hkw hi]
    · rw [getLsbD_releaseDr7_of_not_slotBit _ hkw hi, getLsbD_releaseDr7_of_not_slotBit _ hkw hi,
        getLsbD_assignDr7_of_not_slotBit _ hreg hkw hj]

theorem releaseDr7_comm (hij : i ≠ j) :
    releaseDr7 (releaseDr7 dr7 (.ofSlot j)) (.ofSlot i) =
      releaseDr7 (releaseDr7 dr7 (.ofSlot i)) (.ofSlot j) := by
  apply BitVec.eq_of_getLsbD_eq
  intro k hkw
  by_cases hj : SlotBit j k
  · rw [getLsbD_releaseDr7_of_not_slotBit _ hkw (hj.ne hij),
      getLsbD_releaseDr7_of_slotBit _ hkw hj, getLsbD_releaseDr7_of_slotBit _ hkw hj]
  · rw [getLsbD_releaseDr7_of_not_slotBit (releaseDr7 dr7 (.ofSlot i)) hkw hj]
    by_cases hi : SlotBit i k
    · rw [getLsbD_releaseDr7_of_slotBit _ hkw hi, getLsbD_releaseDr7_of_slotBit _ hkw hi]
    · rw [getLsbD_releaseDr7_of_not_slotBit _ hkw hi, getLsbD_releaseDr7_of_not_slotBit _ hkw hi,
        getLsbD_releaseDr7_of_not_slotBit _ hkw hj]

end Context

namespace Registers

/-- The address register, the enable bit and the field of a slot are zero. -/
structure Free (r : Registers b) (i : Fin 4) : Prop where
  dr : r.1 i = 0
  dr7 : ∀ k, k = i.val * 2 ∨ (16 + i.val * 4 ≤ k ∧ k < 20 + i.val * 4) → r.2.getLsbD k = false

theorem release_eq_self {r : Registers b} {i : Fin 4} (hfree : r.Free i)
    (hupper : ∀ k, 32 ≤ k → r.2.getLsbD k = false) : r.release i = r := by
  refine Prod.ext (Function.update_eq_self_iff.mpr hfree.dr.symm) ?_
  apply BitVec.eq_of_getLsbD_eq
  intro k hkw
  by_cases h : Context.SlotBit i k
  · rw [release, Context.getLsbD_releaseDr7_of_slotBit _ hkw h]
    rcases h with h | h | ⟨h, -⟩
    · exact (hfree.dr7 k (Or.inl h)).symm
    · exact (hfree.dr7 k (Or.inr h)).symm
    · exact (hupper k h).symm
  · rw [release, Context.getLsbD_releaseDr7_of_not_slotBit _ hkw h]

theorem release_assign {bp : HwBp b} {i : Fin 4} (hreg : bp.reg = .ofSlot i) (r : Registers b) :
    (r.assign bp i).release i = r.release i :=
  Prod.ext (Function.update_idem _ _ _) (Context.releaseDr7_assignDr7 _ hreg)

end Registers

namespace SlotOp

def target : SlotOp b → HANDLE × DRReg
  | set bp => (bp.hThread, bp.reg)
  | clear hThread reg => (hThread, reg)

/-- What a call does to the registers of its thread, given the number of its slot. -/
def onRegisters (op : SlotOp b) (j : Fin 4) : Registers b → Registers b :=
  match op with
  | set bp => .assign bp j
  | clear _ _ => .release j

theorem release_onRegisters {op : SlotOp b} {i j : Fin 4} (hj : op.target.2 = .ofSlot j)
    (hij : i ≠ j) (r : Registers b) :
    (op.onRegisters j r).release i = op.onRegisters j (r.release i) := by
  cases op with
  | set bp =>
    exact Prod.ext (Function.update_comm hij.symm _ _ _)
      (Context.releaseDr7_assignDr7_comm r.2 hj hij)
  | clear hThread reg =>
    exact Prod.ext (Function.update_comm hij.symm _ _ _) (Context.releaseDr7_comm r.2 hij)

end SlotOp

/-! ## When a call succeeds -/

/-- None of the calls that change the registers of a thread is refused. -/
structure Os.Allows (os : Os b) (tid : DWORD) : Prop where
  get : os.fails (.getThreadContext tid) = false
  suspend : os.fails (.suspendThread tid) = false
  set : os.fails (.setThreadContext tid) = false
  resume : os.fails (.resumeThread tid) = false

theorem Os.Allows.getThreadContext {os : Os b} {tid : DWORD} (ha : os.Allows tid) {h : HANDLE}
    (hl : os.handles.lookup h = some tid) (flags : ContextFlags) :
    os.getThreadContext flags h = some (Context.zero.merge flags (os.context tid)) :=
  Os.getThreadContext_eq_some.mpr ⟨tid, hl, ha.get, rfl⟩

theorem Os.Allows.suspend_set_resume {os : Os b} {tid : DWORD} (ha : os.Allows tid) {h : HANDLE}
    (hl : os.handles.lookup h = some tid) (flags : ContextFlags) (ctx : Context b) :
    ∃ os₁ os₂ os₃, os.suspendThread h = some os₁ ∧ os₁.setThreadContext flags h ctx = some os₂ ∧
      os₂.resumeThread h = some os₃ := by
  let os₁ := os.withThread tid
    { os.thread tid with suspendCount := (os.thread tid).suspendCount + 1 }
  let os₂ := os₁.withContext tid ((os₁.context tid).merge flags ctx)
  have h₁ : os.suspendThread h = some os₁ :=
    Os.suspendThread_eq_some.mpr ⟨tid, hl, ha.suspend, rfl⟩
  have h₂ : os₁.setThreadContext flags h ctx = some os₂ :=
    Os.setThreadContext_eq_some.mpr ⟨tid, hl, ha.set, rfl⟩
  exact ⟨os₁, os₂, _, h₁, h₂, Os.resumeThread_eq_some.mpr ⟨tid, hl, ha.resume, rfl⟩⟩

theorem Os.allows_of_some {os os₁ os₂ os₃ : Os b} {flags : ContextFlags} {h : HANDLE}
    {tid : DWORD} {ctx ctx' : Context b} (hl : os.handles.lookup h = some tid)
    (h₀ : os.getThreadContext flags h = some ctx) (h₁ : os.suspendThread h = some os₁)
    (h₂ : os₁.setThreadContext flags h ctx' = some os₂) (h₃ : os₂.resumeThread h = some os₃) :
    os.Allows tid := by
  obtain ⟨tid₀, hl₀, hget, -⟩ := Os.getThreadContext_eq_some.mp h₀
  obtain rfl : tid = tid₀ := Option.some.inj (hl.symm.trans hl₀)
  obtain ⟨tid₁, hl₁, hsuspend, rfl⟩ := Os.suspendThread_eq_some.mp h₁
  obtain rfl : tid = tid₁ := Option.some.inj (hl.symm.trans hl₁)
  obtain ⟨tid₂, hl₂, hset, rfl⟩ := Os.setThreadContext_eq_some.mp h₂
  obtain rfl : tid = tid₂ := Option.some.inj (hl.symm.trans hl₂)
  obtain ⟨tid₃, hl₃, hresume, rfl⟩ := Os.resumeThread_eq_some.mp h₃
  obtain rfl : tid = tid₃ := Option.some.inj (hl.symm.trans hl₃)
  exact ⟨hget, hsuspend, hset, hresume⟩

namespace Debugger

theorem setHardwareBreakpointOnThread_eq_true_iff {bp : HwBp b} {d : Debugger b} :
    (d.setHardwareBreakpointOnThread bp).2 = true ↔
      bp.Accepted ∧ ∃ tid, d.os.handles.lookup bp.hThread = some tid ∧ d.os.Allows tid := by
  constructor
  · intro h
    obtain ⟨tid, ctx, hl, ha, hlen, -⟩ := setHardwareBreakpointOnThread_true h
    have hreg : bp.reg ≠ .NOP := by
      intro hreg
      simp [Context.assign, Context.withDr, hreg] at ha
    refine ⟨⟨hreg, hlen⟩, tid, hl, ?_⟩
    unfold setHardwareBreakpointOnThread at h
    rw [if_neg (fun hc => hc.2 (hlen hc.1))] at h
    split at h
    · cases h
    · next ctx hget =>
      split at h
      · cases h
      · split at h
        · cases h
        · next os₁ h₁ =>
          split at h
          · cases h
          · next os₂ h₂ =>
            split at h
            · cases h
            · next os₃ h₃ => exact Os.allows_of_some hl hget h₁ h₂ h₃
  · rintro ⟨⟨hreg, hlen⟩, tid, hl, hallows⟩
    have hcheck : ¬ (bp.type = .EXECUTE ∧ bp.len ≠ .BYTE) := fun hc => hc.2 (hlen hc.1)
    obtain ⟨i, hi⟩ := DRReg.eq_ofSlot hreg
    obtain ⟨ctx, hassign, -⟩ :=
      (Context.zero.merge .DEBUG_REGISTERS (d.os.context tid)).assign_eq hi
    obtain ⟨os₁, os₂, os₃, h₁, h₂, h₃⟩ := hallows.suspend_set_resume hl .DEBUG_REGISTERS ctx
    simp only [setHardwareBreakpointOnThread, if_neg hcheck, hallows.getThreadContext hl, hassign,
      h₁, h₂, h₃]

theorem clearHardwareBreakpointOnThread_eq_true_iff {hThread : HANDLE} {reg : DRReg}
    {d : Debugger b} :
    (d.clearHardwareBreakpointOnThread hThread reg).2 = true ↔
      reg ≠ .NOP ∧ ∃ tid, d.os.handles.lookup hThread = some tid ∧ d.os.Allows tid := by
  constructor
  · intro h
    obtain ⟨tid, i, hl, hi, -⟩ := clearHardwareBreakpointOnThread_true h
    have hreg : reg ≠ .NOP := hi ▸ DRReg.ofSlot_ne_NOP i
    refine ⟨hreg, tid, hl, ?_⟩
    unfold clearHardwareBreakpointOnThread at h
    rw [if_neg (fun hc => hreg (invalid_iff.mp hc))] at h
    split at h
    · cases h
    · next ctx hget =>
      split at h
      · cases h
      · next os₁ h₁ =>
        simp only [Bool.and_eq_true, Option.isSome_iff_exists] at h
        obtain ⟨⟨os₂, h₂⟩, os₃, h₃⟩ := h
        rw [h₂, Option.getD_some] at h₃
        exact Os.allows_of_some hl hget h₁ h₂ h₃
  · rintro ⟨hreg, tid, hl, hallows⟩
    obtain ⟨os₁, os₂, os₃, h₁, h₂, h₃⟩ := hallows.suspend_set_resume hl .DEBUG_REGISTERS
      ((Context.zero.merge .DEBUG_REGISTERS (d.os.context tid)).release reg)
    simp only [clearHardwareBreakpointOnThread, if_neg (fun hc => hreg (invalid_iff.mp hc)),
      hallows.getThreadContext hl, h₁, h₂, Option.getD_some, h₃, Option.isSome_some, Bool.and_self]

end Debugger

/-! ## Sequences of calls -/

theorem DRReg.ofSlot_injective : Function.Injective DRReg.ofSlot := by
  intro i j h
  simpa using congrArg DRReg.slot? h

namespace SlotOp

variable {op : SlotOp b} {d d' : Debugger b}

/-- A call that succeeds changes the registers of its thread, and no handle. -/
theorem run_registers (h : (op.run d).2 = true) :
    ∃ tid j, d.os.handles.lookup op.target.1 = some tid ∧ op.target.2 = .ofSlot j ∧
      (op.run d).1.registers =
        Function.update d.registers tid (op.onRegisters j (d.registers tid)) := by
  cases op with
  | set bp =>
    obtain ⟨tid, ctx, hl, ha, -, he⟩ := Debugger.setHardwareBreakpointOnThread_true h
    have hreg : bp.reg ≠ .NOP :=
      (Debugger.setHardwareBreakpointOnThread_eq_true_iff.mp h).1.1
    obtain ⟨j, hj⟩ := DRReg.eq_ofSlot hreg
    obtain ⟨ctx', hctx', hdr7, -, -, hdr⟩ := (d.os.context tid).assign_eq hj
    obtain rfl : ctx = ctx' := Option.some.inj (ha.symm.trans hctx')
    refine ⟨tid, j, hl, hj, ?_⟩
    rw [run, he, Debugger.registers_withContext, hdr7, hdr]
    rfl
  | clear hThread reg =>
    obtain ⟨tid, j, tracked, hl, rfl, he⟩ := Debugger.clearHardwareBreakpointOnThread_eq h
    obtain ⟨hdr7, -, -, hdr⟩ := (d.os.context tid).release_eq j
    refine ⟨tid, j, hl, rfl, ?_⟩
    rw [run, he, Debugger.registers_withContext, hdr7, hdr]
    rfl

theorem run_registers_of_lookup (h : (op.run d).2 = true) {tid : DWORD} {i : Fin 4}
    (hl : d.os.handles.lookup op.target.1 = some tid) (hi : op.target.2 = .ofSlot i) :
    (op.run d).1.registers =
      Function.update d.registers tid (op.onRegisters i (d.registers tid)) := by
  obtain ⟨u, j, hlu, hj, he⟩ := run_registers h
  obtain rfl : tid = u := Option.some.inj (hl.symm.trans hlu)
  obtain rfl : i = j := DRReg.ofSlot_injective (hi.symm.trans hj)
  exact he

theorem run_succeeds_congr (hhandles : d'.os.handles = d.os.handles)
    (hfails : d'.os.fails = d.os.fails) (h : (op.run d).2 = true) : (op.run d').2 = true := by
  have hallows : ∀ tid, d.os.Allows tid → d'.os.Allows tid := by
    rintro tid ⟨hget, hsuspend, hset, hresume⟩
    rw [← hfails] at hget hsuspend hset hresume
    exact ⟨hget, hsuspend, hset, hresume⟩
  cases op with
  | set bp =>
    obtain ⟨haccepted, tid, hl, ha⟩ := Debugger.setHardwareBreakpointOnThread_eq_true_iff.mp h
    rw [← hhandles] at hl
    exact Debugger.setHardwareBreakpointOnThread_eq_true_iff.mpr
      ⟨haccepted, tid, hl, hallows tid ha⟩
  | clear hThread reg =>
    obtain ⟨hreg, tid, hl, ha⟩ := Debugger.clearHardwareBreakpointOnThread_eq_true_iff.mp h
    rw [← hhandles] at hl
    exact Debugger.clearHardwareBreakpointOnThread_eq_true_iff.mpr ⟨hreg, tid, hl, hallows tid ha⟩

end SlotOp

inductive Succeeds : Debugger b → List (SlotOp b) → Debugger b → Prop
  | nil (d : Debugger b) : Succeeds d [] d
  | cons {d d' : Debugger b} {op : SlotOp b} {ops : List (SlotOp b)}
      (hop : (op.run d).2 = true) (hrun : Succeeds (op.run d).1 ops d') : Succeeds d (op :: ops) d'

def releaseIn (tid : DWORD) (i : Fin 4) (m : DWORD → Registers b) : DWORD → Registers b :=
  Function.update m tid ((m tid).release i)

theorem releaseIn_update {op : SlotOp b} {tid u : DWORD} {i j : Fin 4}
    (hj : op.target.2 = .ofSlot j) (hother : u = tid → i ≠ j) (m : DWORD → Registers b) :
    releaseIn tid i (Function.update m u (op.onRegisters j (m u))) =
      Function.update (releaseIn tid i m) u (op.onRegisters j (releaseIn tid i m u)) := by
  by_cases hu : u = tid
  · subst hu
    simp only [releaseIn, Function.update_self, Function.update_idem,
      SlotOp.release_onRegisters hj (hother rfl)]
  · simp only [releaseIn, Function.update_of_ne hu, Function.update_of_ne (Ne.symm hu)]
    exact Function.update_comm hu _ _ _

/-- Releasing a slot that was free undoes what was assigned to it. -/
theorem releaseIn_assign {m : DWORD → Registers b} {bp : HwBp b} {tid : DWORD} {i : Fin 4}
    (hreg : bp.reg = .ofSlot i) (hfree : (m tid).Free i)
    (hupper : ∀ k, 32 ≤ k → (m tid).2.getLsbD k = false) :
    releaseIn tid i (Function.update m tid ((m tid).assign bp i)) = m := by
  rw [releaseIn, Function.update_self, Function.update_idem, Registers.release_assign hreg,
    Registers.release_eq_self hfree hupper, Function.update_eq_self]

/-- Two runs of the same calls, none of which is on the slot that only one of them holds. -/
theorem Succeeds.released {d d₁ : Debugger b} {ops : List (SlotOp b)} {tid : DWORD} {i : Fin 4}
    (hrun : Succeeds d ops d₁)
    (hothers : ∀ op ∈ ops,
      d.os.handles.lookup op.target.1 = some tid → op.target.2 ≠ .ofSlot i)
    {d' : Debugger b} (hhandles : d'.os.handles = d.os.handles) (hfails : d'.os.fails = d.os.fails)
    (hregs : d'.registers = releaseIn tid i d.registers) :
    ∃ d₁', Succeeds d' ops d₁' ∧ d₁'.registers = releaseIn tid i d₁.registers ∧
      d₁.os.handles = d.os.handles ∧ d₁.os.fails = d.os.fails := by
  induction hrun generalizing d' with
  | nil d => exact ⟨d', .nil d', hregs, rfl, rfl⟩
  | @cons d d₁ op ops hop hrun ih =>
    obtain ⟨-, hh, hf, -⟩ := Debugger.run_refines (Or.inl hop)
    have hop' := SlotOp.run_succeeds_congr hhandles hfails hop
    obtain ⟨-, hh', hf', -⟩ := Debugger.run_refines (Or.inl hop')
    obtain ⟨u, j, hl, hj, he⟩ := SlotOp.run_registers hop
    have hl' : d'.os.handles.lookup op.target.1 = some u := by
      rw [hhandles]
      exact hl
    have he' := SlotOp.run_registers_of_lookup hop' hl' hj
    have hother : u = tid → i ≠ j := by
      rintro rfl rfl
      exact hothers op List.mem_cons_self hl hj
    have hregs' : (op.run d').1.registers = releaseIn tid i (op.run d).1.registers := by
      rw [he', he, hregs, releaseIn_update hj hother]
    have hothers' : ∀ o ∈ ops, (op.run d).1.os.handles.lookup o.target.1 = some tid →
        o.target.2 ≠ .ofSlot i := by
      rw [hh]
      exact fun o ho => hothers o (List.mem_cons_of_mem op ho)
    obtain ⟨d₁', hrun', hend, hh₁, hf₁⟩ := ih hothers' (hh'.trans (hhandles.trans hh.symm))
      (hf'.trans (hfails.trans hf.symm)) hregs'
    exact ⟨d₁', .cons hop' hrun', hend, hh₁.trans hh, hf₁.trans hf⟩

/-- Setting a free slot, any successful calls on other slots, and clearing the slot
leave the registers of all threads as those calls alone do. -/
theorem clearHardwareBreakpointOnThread_undoes {d d₁ : Debugger b} {bp : HwBp b} {tid : DWORD}
    {i : Fin 4} {ops : List (SlotOp b)} {hThread : HANDLE}
    (hset : (d.setHardwareBreakpointOnThread bp).2 = true)
    (hl : d.os.handles.lookup bp.hThread = some tid) (hreg : bp.reg = .ofSlot i)
    (hfree : (d.registers tid).Free i) (hupper : (d.os.context tid).UpperClear)
    (hrun : Succeeds (d.setHardwareBreakpointOnThread bp).1 ops d₁)
    (hothers : ∀ op ∈ ops,
      d.os.handles.lookup op.target.1 = some tid → op.target.2 ≠ .ofSlot i)
    (hl' : d.os.handles.lookup hThread = some tid) :
    ∃ d₁', Succeeds d ops d₁' ∧
      (d₁.clearHardwareBreakpointOnThread hThread (.ofSlot i)).2 = true ∧
      (d₁.clearHardwareBreakpointOnThread hThread (.ofSlot i)).1.registers = d₁'.registers := by
  have hop : ((SlotOp.set bp).run d).2 = true := hset
  obtain ⟨-, hh, hf, -⟩ : _ ∧ (d.setHardwareBreakpointOnThread bp).1.os.handles = d.os.handles ∧
    _ ∧ _ := Debugger.run_refines (Or.inl hop)
  have he := SlotOp.run_registers_of_lookup hop hl hreg
  have hregs : d.registers =
      releaseIn tid i (d.setHardwareBreakpointOnThread bp).1.registers :=
    ((congrArg (releaseIn tid i) he).trans (releaseIn_assign hreg hfree hupper)).symm
  have hothers' : ∀ op ∈ ops, (d.setHardwareBreakpointOnThread bp).1.os.handles.lookup
      op.target.1 = some tid → op.target.2 ≠ .ofSlot i := by
    rw [hh]
    exact hothers
  obtain ⟨d₁', hrun', hend, hh₁, hf₁⟩ := hrun.released hothers' hh.symm hf.symm hregs
  obtain ⟨-, v, hlv, hallows⟩ := Debugger.setHardwareBreakpointOnThread_eq_true_iff.mp hset
  obtain rfl : tid = v := Option.some.inj (hl.symm.trans hlv)
  have hclear₀ : ((SlotOp.clear hThread (.ofSlot i)).run d).2 = true :=
    Debugger.clearHardwareBreakpointOnThread_eq_true_iff.mpr
      ⟨DRReg.ofSlot_ne_NOP i, tid, hl', hallows⟩
  have hclear : ((SlotOp.clear hThread (.ofSlot i)).run d₁).2 = true :=
    SlotOp.run_succeeds_congr (hh₁.trans hh) (hf₁.trans hf) hclear₀
  have hl₁ : d₁.os.handles.lookup hThread = some tid := by
    rw [hh₁, hh]
    exact hl'
  have hc := SlotOp.run_registers_of_lookup hclear hl₁ rfl
  exact ⟨d₁', hrun', hclear, hc.trans hend.symm⟩

theorem clearHardwareBreakpointOnThread_undoes_slot_three :
    let d : Debugger .x64 := (Debugger.new (.ofCode (fun _ => 0x90) [7])).actualizeThreadList
    let bp : HwBp .x64 := ⟨1, 0x1000, .DR3, .WRITE, .DWORD⟩
    let ops : List (SlotOp .x64) :=
      [.set ⟨1, 0x2000, .DR0, .EXECUTE, .BYTE⟩, .set ⟨1, 0x3000, .DR2, .READWRITE, .QWORD⟩,
        .clear 1 .DR0]
    let d₁ := ops.foldl (fun d op => (op.run d).1) (d.setHardwareBreakpointOnThread bp).1
    ∃ d₁', Succeeds d ops d₁' ∧ (d₁.clearHardwareBreakpointOnThread 1 (.ofSlot 3)).2 = true ∧
      (d₁.clearHardwareBreakpointOnThread 1 (.ofSlot 3)).1.registers = d₁'.registers := by
  intro d bp ops d₁
  have hset : (d.setHardwareBreakpointOnThread bp).2 = true := by decide
  have hl : d.os.handles.lookup 1 = some 7 := by decide
  have hreg : bp.reg = .ofSlot 3 := rfl
  have hfree : (d.registers 7).Free 3 := ⟨rfl, fun _ _ => BitVec.getLsbD_zero⟩
  have hupper : (d.os.context 7).UpperClear := fun _ _ => BitVec.getLsbD_zero
  have hrun : Succeeds (d.setHardwareBreakpointOnThread bp).1 ops d₁ :=
    .cons (by decide) (.cons (by decide) (.cons (by decide) (.nil _)))
  exact clearHardwareBreakpointOnThread_undoes hset hl hreg hfree hupper hrun (by decide) hl

end RoboDbg
