import RoboDbg.MixedBreakpoints

/-!
# Debug registers over a hit that is restored

A hardware hit answered with `RESTORE` clears one slot of the thread that trapped
and records what the first listed thread holds in it; the step that follows writes
the record to every thread. The registers are what they were before exactly if
every thread held that record already.
-/

namespace RoboDbg

open BitField

variable {b : Build}

theorem AccessType.eq_zero_of_ofField {n : ℕ} (h : AccessType.ofField n = .EXECUTE) : n = 0 := by
  match n with
  | 0 => rfl
  | 1 => cases h
  | 2 => cases h
  | n + 3 => cases h

theorem BreakpointLength.eq_zero_of_ofField {n : ℕ} (h : BreakpointLength.ofField n = .BYTE) :
    n = 0 := by
  match n with
  | 0 => rfl
  | 1 => cases h
  | 2 => cases h
  | n + 3 => cases h

/-! ## All bits of `Dr7` -/

namespace Context

/-- The upper half of `Dr7`, which the processor reserves, is clear. -/
def UpperClear (ctx : Context b) : Prop := ∀ k, 32 ≤ k → ctx.Dr7.getLsbD k = false

theorem bits_of_field_eq_zero {word : DWORD_PTR b} {pos : ℕ} (h : field word pos = 0) :
    word.getLsbD pos = false ∧ word.getLsbD (pos + 1) = false := by
  rw [field_eq b.le_bits] at h
  constructor
  · rw [← Bool.toNat_eq_zero]
    omega
  · rw [← Bool.toNat_eq_zero]
    omega

section Upper

variable (dr7 : DWORD_PTR b) (i : Fin 4) {k : ℕ} (hk : 32 ≤ k) (hkw : k < b.bits)
include hk hkw

/-- The mask for slot 3 is positive as an `int` and takes the upper half away. -/
theorem getLsbD_clearNibble_of_le :
    (dr7 &&& ofInt _ (~~~(0xF#32 <<< (16 + i.val * 4)))).getLsbD k =
      (dr7.getLsbD k && decide (i ≠ 3)) := by
  have hmsb : (~~~(0xF#32 <<< (16 + i.val * 4))).msb = decide (i ≠ 3) := by
    revert i
    decide
  rw [BitVec.getLsbD_and, getLsbD_ofInt_of_le _ hk hkw, hmsb]

theorem getLsbD_releaseDr7_of_le :
    (releaseDr7 dr7 (.ofSlot i)).getLsbD k = (dr7.getLsbD k && decide (i ≠ 3)) := by
  have hmsb : (~~~(1#32 <<< (i.val * 2))).msb = true := by
    revert i
    decide
  simp only [releaseDr7, DRReg.toInt_ofSlot]
  rw [getLsbD_clearNibble_of_le _ _ hk hkw, BitVec.getLsbD_and, getLsbD_ofInt_of_le _ hk hkw, hmsb,
    Bool.and_true]

theorem getLsbD_assignDr7_of_le {bp : HwBp b} (hreg : bp.reg = .ofSlot i) :
    (assignDr7 dr7 bp).getLsbD k = (dr7.getLsbD k && decide (i ≠ 3) ||
      ((bp.type.toInt ||| (bp.len.toInt <<< 2)) <<< (16 + i.val * 4)).msb) := by
  have hmsb : (1#32 <<< (i.val * 2)).msb = false := by
    clear hreg
    revert i
    decide
  simp only [assignDr7, hreg, DRReg.toInt_ofSlot]
  rw [BitVec.getLsbD_or, getLsbD_ofInt_of_le _ hk hkw, getLsbD_clearNibble_of_le _ _ hk hkw,
    BitVec.getLsbD_or, getLsbD_ofInt_of_le _ hk hkw, hmsb, Bool.or_false]

end Upper

theorem msb_fields (type : AccessType) (len : BreakpointLength) (i : Fin 4) :
    ((type.toInt ||| (len.toInt <<< 2)) <<< (16 + i.val * 4)).msb =
      decide (i = 3 ∧ (len = .DWORD ∨ len = .QWORD)) := by
  revert i
  cases type <;> cases len <;> decide

/-! ## The bits that belong to a slot -/

/-- Operations on a slot write its enable bit and its field; those on slot 3 write the
upper half as well, with the sign of their masks. -/
def SlotBit (i : Fin 4) (k : ℕ) : Prop :=
  k = i.val * 2 ∨ (16 + i.val * 4 ≤ k ∧ k < 20 + i.val * 4) ∨ (32 ≤ k ∧ i.val = 3)

theorem SlotBit.ne {i j : Fin 4} {k : ℕ} (h : SlotBit j k) (hij : i ≠ j) : ¬ SlotBit i k := by
  have hval : i.val ≠ j.val := fun he => hij (Fin.ext he)
  simp only [SlotBit] at h ⊢
  omega

section Release

variable (dr7 : DWORD_PTR b) {i : Fin 4} {k : ℕ} (hkw : k < b.bits)
include hkw

theorem getLsbD_releaseDr7_of_slotBit (h : SlotBit i k) :
    (releaseDr7 dr7 (.ofSlot i)).getLsbD k = false := by
  by_cases hk : k < 32
  · rw [getLsbD_releaseDr7 _ _ hk, if_pos]
    rcases h with h | h | ⟨h, -⟩
    · exact Or.inl h
    · exact Or.inr h
    · exact absurd hk (not_lt.mpr h)
  · have h3 : i = 3 := by
      rcases h with h | h | ⟨-, h⟩
      · omega
      · omega
      · exact Fin.ext h
    rw [getLsbD_releaseDr7_of_le _ _ (not_lt.mp hk) hkw, h3]
    simp

theorem getLsbD_releaseDr7_of_not_slotBit (h : ¬ SlotBit i k) :
    (releaseDr7 dr7 (.ofSlot i)).getLsbD k = dr7.getLsbD k := by
  simp only [SlotBit, not_or] at h
  by_cases hk : k < 32
  · rw [getLsbD_releaseDr7 _ _ hk, if_neg (fun hc => hc.elim h.1 h.2.1)]
  · have h3 : i ≠ 3 := fun h3 => h.2.2 ⟨not_lt.mp hk, congrArg Fin.val h3⟩
    rw [getLsbD_releaseDr7_of_le _ _ (not_lt.mp hk) hkw, decide_eq_true h3, Bool.and_true]

end Release

section Assign

variable (dr7 : DWORD_PTR b) {bp : HwBp b} {i : Fin 4} (hreg : bp.reg = .ofSlot i)
include hreg

theorem getLsbD_assignDr7_of_slotBit {k : ℕ} (hkw : k < b.bits) (h : SlotBit i k) :
    (assignDr7 dr7 bp).getLsbD k = (assignDr7 0 bp).getLsbD k := by
  by_cases hk : k < 32
  · rw [getLsbD_assignDr7 _ hreg hk, getLsbD_assignDr7 _ hreg hk]
    split_ifs with hen hin
    · rfl
    · rfl
    · rcases h with h | h | ⟨h, -⟩
      · exact absurd h hen
      · exact absurd h hin
      · exact absurd hk (not_lt.mpr h)
  · have hk' := not_lt.mp hk
    have h3 : i = 3 := by
      rcases h with h | h | ⟨-, h⟩
      · omega
      · omega
      · exact Fin.ext h
    rw [getLsbD_assignDr7_of_le _ _ hk' hkw hreg, getLsbD_assignDr7_of_le _ _ hk' hkw hreg, h3]
    simp

theorem getLsbD_assignDr7_of_not_slotBit {k : ℕ} (hkw : k < b.bits) (h : ¬ SlotBit i k) :
    (assignDr7 dr7 bp).getLsbD k = dr7.getLsbD k := by
  simp only [SlotBit, not_or] at h
  by_cases hk : k < 32
  · rw [getLsbD_assignDr7 _ hreg hk, if_neg h.1, if_neg h.2.1]
  · have h3 : i ≠ 3 := fun h3 => h.2.2 ⟨not_lt.mp hk, congrArg Fin.val h3⟩
    have hmsb : ¬ (i = 3 ∧ (bp.len = .DWORD ∨ bp.len = .QWORD)) := fun hc => h3 hc.1
    rw [getLsbD_assignDr7_of_le _ _ (not_lt.mp hk) hkw hreg, msb_fields, decide_eq_true h3,
      decide_eq_false hmsb, Bool.and_true, Bool.or_false]

theorem assignDr7_releaseDr7 : assignDr7 (releaseDr7 dr7 (.ofSlot i)) bp = assignDr7 dr7 bp := by
  apply BitVec.eq_of_getLsbD_eq
  intro k hkw
  by_cases h : SlotBit i k
  · rw [getLsbD_assignDr7_of_slotBit _ hreg hkw h, getLsbD_assignDr7_of_slotBit dr7 hreg hkw h]
  · rw [getLsbD_assignDr7_of_not_slotBit _ hreg hkw h, getLsbD_releaseDr7_of_not_slotBit _ hkw h,
      getLsbD_assignDr7_of_not_slotBit _ hreg hkw h]

theorem assignDr7_assignDr7 : assignDr7 (assignDr7 dr7 bp) bp = assignDr7 dr7 bp := by
  apply BitVec.eq_of_getLsbD_eq
  intro k hkw
  by_cases h : SlotBit i k
  · rw [getLsbD_assignDr7_of_slotBit _ hreg hkw h, getLsbD_assignDr7_of_slotBit dr7 hreg hkw h]
  · rw [getLsbD_assignDr7_of_not_slotBit _ hreg hkw h]

variable (htype : bp.type = .EXECUTE) (hlen : bp.len = .BYTE)
include htype hlen

theorem getLsbD_assignDr7_execute {k : ℕ} (hkw : k < b.bits) :
    (assignDr7 dr7 bp).getLsbD k =
      if k = i.val * 2 then true
      else if (16 + i.val * 4 ≤ k ∧ k < 20 + i.val * 4) ∨ (32 ≤ k ∧ i = 3) then false
      else dr7.getLsbD k := by
  have hzero : bp.type.toInt ||| (bp.len.toInt <<< 2) = 0#32 := by
    rw [htype, hlen]
    rfl
  by_cases hk : k < 32
  · have hnot : ¬ (32 ≤ k ∧ i = 3) := fun h => not_lt.mpr h.1 hk
    rw [getLsbD_assignDr7 _ hreg hk, hzero, BitVec.getLsbD_zero]
    simp only [hnot, or_false]
  · have hk' := not_lt.mp hk
    have hne : ¬ k = i.val * 2 := by omega
    have hout : ¬ (16 + i.val * 4 ≤ k ∧ k < 20 + i.val * 4) := by omega
    rw [getLsbD_assignDr7_of_le _ _ hk' hkw hreg, hzero, BitVec.zero_shiftLeft]
    by_cases h3 : i = 3
    · rw [if_neg hne, if_pos (Or.inr ⟨hk', h3⟩)]
      simp [h3]
    · simp [hne, hout, h3]

end Assign

/-- Assigning an instruction breakpoint changes nothing exactly if the slot holds it
already, and no bit in the upper half is lost. -/
theorem assign_eq_self_iff (ctx : Context b) {bp : HwBp b} {i : Fin 4} (hreg : bp.reg = .ofSlot i)
    (htype : bp.type = .EXECUTE) (hlen : bp.len = .BYTE) :
    (Function.update ctx.dr i bp.address = ctx.dr ∧ assignDr7 ctx.Dr7 bp = ctx.Dr7) ↔
      ctx.slot i = some ⟨bp.address, bp.type, bp.len⟩ ∧ (i = 3 → ctx.UpperClear) := by
  constructor
  · rintro ⟨hdr, hdr7⟩
    obtain ⟨ctx', hassign, hdr7', -, -, hdr'⟩ := ctx.assign_eq hreg
    have hslot := congrFun (slot_assign hreg hassign) i
    rw [Function.update_self] at hslot
    have hsame : ctx'.slot i = ctx.slot i :=
      slot_congr (congrFun (hdr'.trans hdr) i) (fun k _ _ => by rw [hdr7', hdr7])
    refine ⟨hsame.symm.trans hslot, fun h3 k hk => ?_⟩
    by_cases hkw : k < b.bits
    · rw [← hdr7, getLsbD_assignDr7_execute _ hreg htype hlen hkw, if_neg (by omega),
        if_pos (Or.inr ⟨hk, h3⟩)]
    · exact BitVec.getLsbD_of_ge _ _ (not_lt.mp hkw)
  · rintro ⟨hslot, hupper⟩
    obtain ⟨hen, hs⟩ := Debugger.slot_eq_some hslot
    rw [Slot.mk.injEq, htype, hlen] at hs
    obtain ⟨haddr, hfield, hfield'⟩ := hs
    have hlow := bits_of_field_eq_zero (AccessType.eq_zero_of_ofField hfield.symm)
    have hhigh := bits_of_field_eq_zero (BreakpointLength.eq_zero_of_ofField hfield'.symm)
    refine ⟨Function.update_eq_self_iff.mpr haddr, BitVec.eq_of_getLsbD_eq (fun k hkw => ?_)⟩
    rw [getLsbD_assignDr7_execute _ hreg htype hlen hkw]
    split_ifs with hk hin
    · rw [enabled_eq, ← hk] at hen
      exact hen.symm
    · rcases hin with hin | ⟨hk, h3⟩
      · obtain rfl | rfl | rfl | rfl : k = 16 + i.val * 4 ∨ k = 16 + i.val * 4 + 1 ∨
            k = 18 + i.val * 4 ∨ k = 18 + i.val * 4 + 1 := by omega
        · exact hlow.1.symm
        · exact hlow.2.symm
        · exact hhigh.1.symm
        · exact hhigh.2.symm
      · exact (hupper h3 k hk).symm
    · rfl

end Context

/-! ## Registers of the threads -/

abbrev Registers (b : Build) := (Fin 4 → DWORD_PTR b) × DWORD_PTR b

namespace Registers

def assign (bp : HwBp b) (i : Fin 4) (r : Registers b) : Registers b :=
  (Function.update r.1 i bp.address, Context.assignDr7 r.2 bp)

def release (i : Fin 4) (r : Registers b) : Registers b :=
  (Function.update r.1 i 0, Context.releaseDr7 r.2 (.ofSlot i))

variable {bp : HwBp b} {i : Fin 4} (hreg : bp.reg = .ofSlot i) (r : Registers b)
include hreg

theorem assign_release : (r.release i).assign bp i = r.assign bp i := by
  rw [assign, release, Function.update_idem, Context.assignDr7_releaseDr7 _ hreg, assign]

theorem assign_assign : (r.assign bp i).assign bp i = r.assign bp i := by
  simp only [assign, Function.update_idem, Context.assignDr7_assignDr7 _ hreg]

end Registers

namespace Debugger

def registers (d : Debugger b) (tid : DWORD) : Registers b :=
  ((d.os.context tid).dr, (d.os.context tid).Dr7)

theorem registers_of_thread {d d' : Debugger b} (h : d'.os.thread = d.os.thread) :
    d'.registers = d.registers := by
  funext tid
  simp only [registers, Os.context, h]

theorem registers_withContext (d : Debugger b) (tid : DWORD) (ctx : Context b)
    (tracked : Std.TreeMap (LPVOID b) (HwBp b) compare) :
    ({ d with os := d.os.withContext tid ctx, hwBreakpoints := tracked } : Debugger b).registers =
      Function.update d.registers tid (ctx.dr, ctx.Dr7) := by
  funext u
  simp only [registers, Os.context_withContext]
  by_cases hu : u = tid
  · rw [hu, Function.update_self, Function.update_self]
  · rw [Function.update_of_ne hu, Function.update_of_ne hu]
    rfl

theorem enableSingleStep_registers {d : Debugger b} {hThread : HANDLE} {tid : DWORD}
    (hr : d.os.Reliable) (hl : d.os.handles.lookup hThread = some tid) :
    (d.enableSingleStep hThread).registers = d.registers := by
  rw [enableSingleStep_eq hr hl]
  refine (registers_withContext d tid _ d.hwBreakpoints).trans ?_
  exact Function.update_eq_self tid d.registers

structure Writes (d d' : Debugger b) (tid : DWORD) (f : Registers b → Registers b) : Prop where
  frame : HwFrame d d'
  registers : d'.registers = Function.update d.registers tid (f (d.registers tid))
  handles : d'.os.handles = d.os.handles

variable {d : Debugger b} {tid : DWORD} {i : Fin 4}

theorem setHardwareBreakpointOnThread_writes {bp : HwBp b}
    (hl : d.os.handles.lookup bp.hThread = some tid) (hreg : bp.reg = .ofSlot i)
    (hok : (d.setHardwareBreakpointOnThread bp).2 = true) :
    Writes d (d.setHardwareBreakpointOnThread bp).1 tid (.assign bp i) := by
  have hputs := puts_of_set hl hreg hok
  obtain ⟨tid', ctx, hl', hassign, -, he⟩ := setHardwareBreakpointOnThread_true hok
  obtain rfl : tid = tid' := Option.some.inj (hl.symm.trans hl')
  obtain ⟨ctx', hctx', hdr7, -, -, hdr⟩ := (d.os.context tid).assign_eq hreg
  obtain rfl : ctx = ctx' := Option.some.inj (hassign.symm.trans hctx')
  refine ⟨hputs.frame, ?_, hputs.handles⟩
  rw [he, registers_withContext, hdr7, hdr]
  rfl

theorem clearHardwareBreakpointOnThread_writes {hThread : HANDLE} (hr : d.os.Reliable)
    (hl : d.os.handles.lookup hThread = some tid) (i : Fin 4) :
    Writes d (d.clearHardwareBreakpointOnThread hThread (.ofSlot i)).1 tid (.release i) := by
  obtain ⟨hok, hputs⟩ := clearHardwareBreakpointOnThread_puts hr hl i
  obtain ⟨tid', j, tracked, hl', -, he⟩ := clearHardwareBreakpointOnThread_eq hok
  obtain rfl : tid = tid' := Option.some.inj (hl.symm.trans hl')
  obtain ⟨hdr7, -, -, hdr⟩ := (d.os.context tid).release_eq i
  refine ⟨hputs.frame, ?_, hputs.handles⟩
  rw [he, registers_withContext, hdr7, hdr]
  rfl

theorem forThreads_registers {f : Registers b → Registers b} (hf : ∀ r, f (f r) = f r)
    {op : Thread b → Debugger b → Debugger b × Bool}
    (hop : ∀ d thread tid, d.os.handles.lookup thread.hThread = some tid →
      (op thread d).2 = true → Writes d (op thread d).1 tid f)
    (threads : List (Thread b)) {d : Debugger b}
    (hopen : ∀ thread ∈ threads, d.os.handles.lookup thread.hThread = some thread.threadId)
    (hok : (forThreads op threads d).2 = true) (u : DWORD) :
    (forThreads op threads d).1.registers u =
      if u ∈ threads.map (·.threadId) then f (d.registers u) else d.registers u := by
  induction threads generalizing d with
  | nil => simp [forThreads]
  | cons thread threads ih =>
    obtain ⟨hfirst, hrest⟩ := forThreads_cons hok
    have hwrites := hop d thread _ (hopen thread List.mem_cons_self) hfirst
    have hopen' : ∀ t ∈ threads,
        (op thread d).1.os.handles.lookup t.hThread = some t.threadId := by
      rw [hwrites.handles]
      exact fun t ht => hopen t (List.mem_cons_of_mem _ ht)
    rw [forThreads, ih hopen' hrest, hwrites.registers, List.map_cons]
    by_cases hu : u = thread.threadId
    · subst hu
      rw [Function.update_self, hf, ite_self, if_pos List.mem_cons_self]
    · simp only [Function.update_of_ne hu, List.mem_cons, hu, false_or]

theorem setHardwareBreakpoint_registers {bp : HwBp b} (hreg : bp.reg = .ofSlot i)
    (hok : (d.setHardwareBreakpoint bp).2 = true) (u : DWORD) :
    (d.setHardwareBreakpoint bp).1.registers u =
      if u ∈ d.openable then (d.registers u).assign bp i else d.registers u := by
  let d₁ := d.actualizeThreadList
  have hf := actualizeThreadList_frame d
  obtain ⟨hthread, -, -, -⟩ := actualizeThreadList_opened d
  obtain ⟨hthread₁, hopen, hids, -⟩ := actualizeThreadList_opened d₁
  have hsame : d₁.actualizeThreadList.registers = d.registers :=
    (registers_of_thread hthread₁).trans (registers_of_thread hthread)
  have hset (d : Debugger b) (thread : Thread b) (tid : DWORD)
      (hl : d.os.handles.lookup thread.hThread = some tid)
      (hok : (d.setHardwareBreakpointOnThread { bp with hThread := thread.hThread }).2 = true) :
      Writes d (d.setHardwareBreakpointOnThread { bp with hThread := thread.hThread }).1 tid
        (.assign bp i) := setHardwareBreakpointOnThread_writes hl hreg hok
  rw [setHardwareBreakpoint_eq hreg] at hok ⊢
  rw [← hsame, ← hf.openable, ← hids]
  exact forThreads_registers (Registers.assign_assign hreg) hset _ hopen hok u

/-! ## The hit and the step -/

structure RestoreDue (d : Debugger b) (i : Fin 4) (s : Slot b) : Prop where
  stepping : d.stepping = true
  needToRestoreBreakpoint : d.needToRestoreBreakpoint = true
  restoreHwBP : d.restoreHwBP = true
  lastBpType : d.lastBpType = BreakpointAction.RESTORE.toInt
  record : ∃ h, d.hwBPToRestore = ⟨h, s.address, .ofSlot i, s.type, s.len⟩

/-- What the first thread of a list that has slot `i` enabled holds in it. -/
def firstHeld (slots : SlotMap b) (i : Fin 4) (tids : List DWORD) : Option (Slot b) :=
  tids.findSome? (fun tid => slots tid i)

variable {ans : Call b → Debugger b → BreakpointAction} {e : ExceptionEvent b} {s : Slot b}
  {hThread : HANDLE}

theorem answerHardware_due (hr : d.os.Reliable) (hl : d.os.handles.lookup hThread = some tid)
    (a : LPVOID b) (hfirst : firstHeld d.slots i d.listed = some s) :
    let d' := d.answerHardware a hThread (.ofSlot i) .RESTORE
    RestoreDue d' i s ∧ d'.os.Reliable ∧ d'.os.processThreads = d.os.processThreads ∧
      d'.registers = Function.update d.registers tid ((d.registers tid).release i) := by
  obtain ⟨hRead, hread⟩ := getBreakpointByReg_first hr hfirst
  let d₁ := d.afterHardware a hThread (.ofSlot i)
  have hr₁ : d₁.os.Reliable := hr
  have hl₁ : d₁.os.handles.lookup hThread = some tid := hl
  let d₂ := (d₁.clearHardwareBreakpointOnThread hThread (.ofSlot i)).1
  have hwrites : Writes d₁ d₂ tid (.release i) :=
    clearHardwareBreakpointOnThread_writes hr₁ hl₁ i
  have hr₂ : d₂.os.Reliable := hwrites.frame.reliable hr₁
  have hl₂ : d₂.os.handles.lookup hThread = some tid := hwrites.handles ▸ hl₁
  have hcontrol := enableSingleStep_frame hThread d₂
  have hsame := hwrites.frame.sameRestore.trans hcontrol.sameRestore
  have hrecord :
      (d₂.enableSingleStep hThread).hwBPToRestore = d.getBreakpointByReg (.ofSlot i) := by
    rw [hcontrol.rest]
    exact congrArg hwBPToRestore hwrites.frame.rest
  intro d'
  have hd' : d' = { d₂.enableSingleStep hThread with stepping := true } :=
    answerHardware_restore a hThread _ d
  rw [hd']
  refine ⟨⟨rfl, hsame.needToRestoreBreakpoint, hsame.restoreHwBP, hsame.lastBpType, hRead, ?_⟩,
    fun c => ?_, hcontrol.sameHardware.process.trans hwrites.frame.processThreads, ?_⟩
  · exact hrecord.trans hread
  · exact (congrFun hcontrol.fails c).trans (hr₂ c)
  · exact (enableSingleStep_registers hr₂ hl₂).trans hwrites.registers

/-- A hit of slot `i`, as the loop finds it, that is answered with `RESTORE`. -/
structure RestoredHit (ans : Call b → Debugger b → BreakpointAction) (d : Debugger b)
    (e : ExceptionEvent b) (i : Fin 4) : Prop where
  code : e.ExceptionCode = EXCEPTION_SINGLE_STEP
  stepping : d.stepping = false
  found : FirstSlotAt d.os.context e.ExceptionAddress i (d.opened e.dwThreadId).listed
  answer : ans (.onHardwareBreakpoint e.ExceptionAddress d.os.handles.next (.ofSlot i))
    (d.opened e.dwThreadId) = .RESTORE

theorem RestoredHit.firstHeld (h : d.RestoredHit ans e i) :
    ∃ s, firstHeld d.slots i (d.opened e.dwThreadId).listed = some s := by
  obtain ⟨t, ht, hen, -⟩ := h.found.exists_mem
  have hslot : d.slots t i = some _ := if_pos hen
  rw [← Option.isSome_iff_exists]
  exact List.findSome?_isSome_iff.mpr ⟨t, ht, by rw [hslot]; rfl⟩

theorem RestoredHit.handleException (h : d.RestoredHit ans e i) (hr : d.os.Reliable)
    (hfirst : Debugger.firstHeld d.slots i (d.opened e.dwThreadId).listed = some s) :
    let d' := d.handleException (answering ans) e
    RestoreDue d' i s ∧ d'.os.Reliable ∧ d'.os.processThreads = d.os.processThreads ∧
      d'.registers = Function.update d.registers e.dwThreadId
        ((d.registers e.dwThreadId).release i) := by
  let d₁ := d.opened e.dwThreadId
  have hr₁ : d₁.os.Reliable := hr
  have hreg : d₁.isHardwareBreakpointAt e.ExceptionAddress = .ofSlot i :=
    (isHardwareBreakpointAt_eq_ofSlot hr₁ _ _).mpr h.found
  let d₂ : Debugger b := { d₁ with trace := d₁.trace ++
    [(.onHardwareBreakpoint e.ExceptionAddress d.os.handles.next (.ofSlot i), .RESTORE)] }
  have hhandle : d.handleException (answering ans) e =
      (d₂.answerHardware e.ExceptionAddress d.os.handles.next (.ofSlot i) .RESTORE).closing
        d.os.handles.next := by
    have hs₁ : d₁.stepping = false := h.stepping
    rw [handleException_of_opened (hr _), dispatch_hardware h.code hs₁]
    simp only [handleHardware, call_answering, hreg, ne_eq, DRReg.ofSlot_ne_NOP, not_false_eq_true,
      if_true, h.answer, d₁, d₂]
  have hl : d₂.os.handles.lookup d.os.handles.next = some e.dwThreadId := lookup_opened _ d
  obtain ⟨hdue, hr', hprocess, hregisters⟩ :=
    answerHardware_due (d := d₂) hr₁ hl e.ExceptionAddress hfirst
  intro d'
  have hd' : d' = _ := hhandle
  rw [hd']
  exact ⟨⟨hdue.stepping, hdue.needToRestoreBreakpoint, hdue.restoreHwBP, hdue.lastBpType,
    hdue.record⟩, hr', hprocess, hregisters⟩

variable (ans) in
theorem RestoreDue.handleException (h : d.RestoreDue i s) (hr : d.os.Reliable)
    (hlen : s.type = .EXECUTE → s.len = .BYTE) (hcode : e.ExceptionCode = EXCEPTION_SINGLE_STEP) :
    ∃ bp : HwBp b, bp.reg = .ofSlot i ∧ s = ⟨bp.address, bp.type, bp.len⟩ ∧
      ∀ u, (d.handleException (answering ans) e).registers u =
        if u ∈ d.os.processThreads then (d.registers u).assign bp i else d.registers u := by
  obtain ⟨hRead, hrecord⟩ := h.record
  have hreg : d.hwBPToRestore.reg = .ofSlot i := by rw [hrecord]
  have hbyte : d.hwBPToRestore.type = .EXECUTE → d.hwBPToRestore.len = .BYTE := by
    rw [hrecord]
    exact hlen
  refine ⟨d.hwBPToRestore, hreg, by rw [hrecord], fun u => ?_⟩
  let d₁ := d.opened e.dwThreadId
  have hstepping : d₁.stepping = true := h.stepping
  have hr₁ : d₁.os.Reliable := hr
  let d₂ := (d₁.setHardwareBreakpoint d.hwBPToRestore).1
  have hpending : d₁.restorePending =
      { d₂ with restoreHwBP := false, needToRestoreBreakpoint := false } :=
    restorePending_of_hardware h.needToRestoreBreakpoint h.restoreHwBP
  have hlast : d₁.restorePending.lastBpType ≠ BreakpointAction.SINGLE_STEP.toInt := by
    have hrestore : d₂.lastBpType = BreakpointAction.RESTORE.toInt :=
      (setHardwareBreakpoint_frame _ d₁).sameRestore.lastBpType.trans h.lastBpType
    rw [hpending]
    change d₂.lastBpType ≠ _
    rw [hrestore]
    decide
  have hset : d₂.registers u = if u ∈ d₁.os.processThreads
      then (d₁.registers u).assign d.hwBPToRestore i else d₁.registers u := by
    rw [← openable_eq hr₁]
    exact setHardwareBreakpoint_registers hreg (setHardwareBreakpoint_putsAll hr₁ hreg hbyte).1 u
  rw [handleException_of_opened (hr _), dispatch_step hcode hstepping]
  simp only [handleStep, hlast, if_false]
  rw [hpending]
  exact hset

/-- What the debuggee may do between the hit and the step: anything but change debug
registers or its threads. -/
structure StepsOver (d : Debugger b) (os : Os b) : Prop where
  reliable : os.Reliable
  processThreads : os.processThreads = d.os.processThreads
  registers : ∀ u, (os.context u).dr = (d.os.context u).dr ∧
    (os.context u).Dr7 = (d.os.context u).Dr7

end Debugger

open Debugger

/-- After a hit answered with `RESTORE` and the step that follows it, the debug registers
of all threads are what they were exactly if slot `i` of every thread of the process held
what the first listed thread that has it enabled held (and, for slot 3, the reserved half
of `Dr7` was clear). -/
theorem registers_restored_iff {ans : Call b → Debugger b → BreakpointAction} {d : Debugger b}
    {e e' : ExceptionEvent b} {i : Fin 4} {os : Os b} (hr : d.os.Reliable)
    (hlive : e.dwThreadId ∈ d.os.processThreads) (hexec : ∀ u, ExecuteOnly (d.slots u))
    (hhit : d.RestoredHit ans e i) (hos : (d.handleException (answering ans) e).StepsOver os)
    (hcode : e'.ExceptionCode = EXCEPTION_SINGLE_STEP) :
    (∀ u, (({ d.handleException (answering ans) e with os := os } : Debugger b).handleException
        (answering ans) e').registers u = d.registers u) ↔
      ∀ u ∈ d.os.processThreads,
        d.slots u i = firstHeld d.slots i (d.opened e.dwThreadId).listed ∧
          (i = 3 → (d.os.context u).UpperClear) := by
  obtain ⟨s, hfirst⟩ := hhit.firstHeld
  obtain ⟨v, -, hv⟩ := List.exists_of_findSome?_eq_some hfirst
  obtain ⟨htype, hlen⟩ := hexec v i s hv
  obtain ⟨hdue, -, hprocess, hcleared⟩ := hhit.handleException hr hfirst
  let d₁ : Debugger b := { d.handleException (answering ans) e with os := os }
  have hdue₁ : d₁.RestoreDue i s :=
    ⟨hdue.stepping, hdue.needToRestoreBreakpoint, hdue.restoreHwBP, hdue.lastBpType, hdue.record⟩
  obtain ⟨bp, hreg, rfl, hwritten⟩ :=
    hdue₁.handleException ans hos.reliable (fun _ => hlen) hcode
  have hafter (u : DWORD) : (d₁.handleException (answering ans) e').registers u =
      if u ∈ d.os.processThreads then (d.registers u).assign bp i else d.registers u := by
    have hmem : u ∈ d₁.os.processThreads ↔ u ∈ d.os.processThreads := by
      rw [← hprocess, ← hos.processThreads]
    have hregs : d₁.registers u = Function.update d.registers e.dwThreadId
        ((d.registers e.dwThreadId).release i) u := by
      rw [← hcleared]
      exact Prod.ext (hos.registers u).1 (hos.registers u).2
    rw [hwritten u, hregs, if_congr hmem rfl rfl]
    by_cases hu : u = e.dwThreadId
    · rw [hu, Function.update_self, if_pos hlive, if_pos hlive, Registers.assign_release hreg]
    · rw [Function.update_of_ne hu]
  have hself (u : DWORD) : (d.registers u).assign bp i = d.registers u ↔
      d.slots u i = some ⟨bp.address, bp.type, bp.len⟩ ∧
        (i = 3 → (d.os.context u).UpperClear) :=
    Prod.ext_iff.trans ((d.os.context u).assign_eq_self_iff hreg htype hlen)
  rw [hfirst]
  constructor
  · intro hsame u hu
    have hu' := hafter u
    rw [if_pos hu] at hu'
    exact (hself u).mp (hu'.symm.trans (hsame u))
  · intro hheld u
    refine (hafter u).trans ?_
    split_ifs with hu
    · exact (hself u).mpr (hheld u hu)
    · rfl

theorem registers_restored_iff_process_wide :
    let cb : Callbacks .x64 := answering (fun _ _ => .RESTORE)
    let d : Debugger .x64 := (setHardwareBreakpoint ⟨0, 0x1000, .DR0, .EXECUTE, .BYTE⟩
      (new (.ofCode (fun _ => 0x90) [7, 8]))).1
    let d' := d.handleException cb ⟨EXCEPTION_SINGLE_STEP, 0x1000, 8, 0, 0⟩
    let d'' := d'.handleException cb ⟨EXCEPTION_SINGLE_STEP, 0x1001, 8, 0, 0⟩
    ∀ u, d''.registers u = d.registers u := by
  intro cb d d' d''
  let d₀ : Debugger .x64 := new (.ofCode (fun _ => 0x90) [7, 8])
  let bp : HwBp .x64 := ⟨0, 0x1000, .DR0, .EXECUTE, .BYTE⟩
  have hreg : bp.reg = .ofSlot 0 := rfl
  have hr₀ : d₀.os.Reliable := fun _ => rfl
  obtain ⟨-, hputs⟩ := setHardwareBreakpoint_putsAll hr₀ hreg (fun _ => rfl)
  have hslot : (d.opened 8).isHardwareBreakpointAt 0x1000 = .ofSlot 0 := by decide +kernel
  have hstepping : d.stepping = false := by decide +kernel
  have hr : d.os.Reliable := hputs.frame.reliable hr₀
  have hlive : 8 ∈ d.os.processThreads := by
    rw [hputs.frame.processThreads]
    decide
  have hslots (u : DWORD) : d.slots u = if u ∈ d.os.processThreads
      then Function.update (fun _ => none) 0 (some ⟨0x1000, .EXECUTE, .BYTE⟩)
      else fun _ => none := by
    have hu := hputs.slots u
    rwa [slots_ofCode] at hu
  clear hputs
  clear_value d
  have hexec (u : DWORD) : ExecuteOnly (d.slots u) := by
    rw [hslots u]
    split_ifs
    · exact ExecuteOnly.none.update 0 0x1000
    · exact ExecuteOnly.none
  let e : ExceptionEvent .x64 := ⟨EXCEPTION_SINGLE_STEP, 0x1000, 8, 0, 0⟩
  have hr₁ : (d.opened 8).os.Reliable := hr
  have hfound : FirstSlotAt (d.opened 8).os.context 0x1000 0 (d.opened 8).listed :=
    (isHardwareBreakpointAt_eq_ofSlot hr₁ 0x1000 0).mp hslot
  have hhit : d.RestoredHit (fun _ _ => .RESTORE) e 0 := ⟨rfl, hstepping, hfound, rfl⟩
  obtain ⟨s, hfirst⟩ := hhit.firstHeld
  obtain ⟨-, hr', -, -⟩ := hhit.handleException hr hfirst
  have hos : d'.StepsOver d'.os := ⟨hr', rfl, fun _ => ⟨rfl, rfl⟩⟩
  refine (registers_restored_iff hr hlive hexec hhit hos rfl).mpr ?_
  intro u hu
  refine ⟨?_, fun h => by cases h⟩
  obtain ⟨v, -, hv⟩ := List.exists_of_findSome?_eq_some hfirst
  rw [hfirst, ← hv, hslots u, hslots v, if_pos hu]
  split_ifs with hv'
  · rfl
  · rw [hslots v, if_neg hv'] at hv
    cases hv

/-- Threads 7 and 8 have different breakpoints in slot 0; a hit on thread 8 leaves it
with that of thread 7. -/
theorem other_thread_record_restored :
    let cb : Callbacks .x64 := answering (fun _ _ => .RESTORE)
    let d₀ : Debugger .x64 := (new (.ofCode (fun _ => 0x90) [7, 8])).actualizeThreadList
    let d₁ := (d₀.setHardwareBreakpointOnThread ⟨1, 0x1000, .DR0, .EXECUTE, .BYTE⟩).1
    let d := (d₁.setHardwareBreakpointOnThread ⟨2, 0x2000, .DR0, .EXECUTE, .BYTE⟩).1
    let d' := loop cb [(id, .EXCEPTION ⟨EXCEPTION_SINGLE_STEP, 0x2000, 8, 0, 0⟩),
      (id, .EXCEPTION ⟨EXCEPTION_SINGLE_STEP, 0x2001, 8, 0, 0⟩)] d
    d.slots 8 0 = some ⟨0x2000, .EXECUTE, .BYTE⟩ ∧
      d'.trace = [(.onHardwareBreakpoint 0x2000 3 .DR0, .RESTORE)] ∧
      d'.slots 8 0 = some ⟨0x1000, .EXECUTE, .BYTE⟩ ∧
      (d'.registers 8).1 0 ≠ (d.registers 8).1 0 := by
  decide +kernel

end RoboDbg
