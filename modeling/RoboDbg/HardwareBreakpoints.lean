import RoboDbg.DebugRegisters

/-!
# Hardware breakpoints

Setting, clearing and finding hardware breakpoints through the debug registers
of the listed threads. Every process-wide operation refreshes the thread list
first, and each refresh opens new handles.
-/

namespace RoboDbg

namespace Debugger

variable {b : Build}

/-- The snapshot loop of `actualizeThreadList`, over the entries it selects. -/
def openThreads : List DWORD → Debugger b → Debugger b
  | [], d => d
  | tid :: tids, d =>
    match d.os.openThread tid with
    | none => openThreads tids d
    | some (hThread, os) =>
      openThreads tids { d with os := os, threads := d.threads ++ [⟨hThread, tid, 0, 0⟩] }

def actualizeThreadList (d : Debugger b) : Debugger b :=
  let d := { d with threads := [] }
  if d.os.fails .getProcessId then d
  else if d.os.fails .createToolhelp32Snapshot then d
  else d.openThreads d.os.processThreads

/-- The loop over `threads` of the process-wide operations: all threads are
tried, and the result says whether all succeeded. -/
def forThreads (op : Thread b → Debugger b → Debugger b × Bool) :
    List (Thread b) → Debugger b → Debugger b × Bool
  | [], d => (d, true)
  | thread :: threads, d =>
    let r := op thread d
    let r' := forThreads op threads r.1
    (r'.1, r.2 && r'.2)

def setHardwareBreakpointOnThread (bp : HwBp b) (d : Debugger b) : Debugger b × Bool :=
  if bp.type = .EXECUTE ∧ bp.len ≠ .BYTE then (d, false)
  else
    match d.os.getThreadContext .DEBUG_REGISTERS bp.hThread with
    | none => (d, false)
    | some ctx =>
      match ctx.assign bp with
      | none => (d, false)
      | some ctx =>
        match d.os.suspendThread bp.hThread with
        | none => (d, false)
        | some os =>
          match os.setThreadContext .DEBUG_REGISTERS bp.hThread ctx with
          | none => ({ d with os := (os.resumeThread bp.hThread).getD os }, false)
          | some os =>
            match os.resumeThread bp.hThread with
            | none => ({ d with os := os }, false)
            | some os =>
              ({ d with os := os, hwBreakpoints := d.hwBreakpoints.insert bp.address bp }, true)

def setHardwareBreakpoint (bp : HwBp b) (d : Debugger b) : Debugger b × Bool :=
  let d := d.actualizeThreadList
  if bp.reg.toInt < 0 ∨ bp.reg.toInt > 3 then (d, false)
  else
    let d := d.actualizeThreadList
    forThreads (fun thread d =>
      d.setHardwareBreakpointOnThread { bp with hThread := thread.hThread }) d.threads d

/-- The tracker forgets an address that it files for this thread and slot. -/
def untrack (hThread : HANDLE) (reg : DRReg) (oldAddr : LPVOID b) (d : Debugger b) : Debugger b :=
  if oldAddr = 0 then d
  else
    match d.hwBreakpoints[oldAddr]? with
    | none => d
    | some stored =>
      if stored.hThread = hThread ∧ stored.reg = reg then
        { d with hwBreakpoints := d.hwBreakpoints.erase oldAddr }
      else d

def clearHardwareBreakpointOnThread (hThread : HANDLE) (reg : DRReg) (d : Debugger b) :
    Debugger b × Bool :=
  if reg.toInt < 0 ∨ reg.toInt > 3 then (d, false)
  else
    match d.os.getThreadContext .DEBUG_REGISTERS hThread with
    | none => (d, false)
    | some ctx =>
      let oldAddr := ctx.drOf reg
      match d.os.suspendThread hThread with
      | none => (d, false)
      | some os =>
        let set := os.setThreadContext .DEBUG_REGISTERS hThread (ctx.release reg)
        let os := set.getD os
        let resumed := os.resumeThread hThread
        let d := { d with os := resumed.getD os }
        (d.untrack hThread reg oldAddr, set.isSome && resumed.isSome)

def clearHardwareBreakpoint (reg : DRReg) (d : Debugger b) : Debugger b × Bool :=
  let d := d.actualizeThreadList
  forThreads (fun thread d => d.clearHardwareBreakpointOnThread thread.hThread reg) d.threads d

def getHardwareBreakpoints (d : Debugger b) : List (HwBp b) :=
  d.threads.flatMap (fun thread =>
    match d.os.getThreadContext .DEBUG_REGISTERS thread.hThread with
    | none => []
    | some ctx =>
      (List.finRange 4).filterMap (fun i =>
        (ctx.slot i).map (fun s => ⟨thread.hThread, s.address, .ofSlot i, s.type, s.len⟩)))

def getBreakpointByRegIn (os : Os b) (reg : DRReg) : List (Thread b) → HwBp b
  | [] => .empty
  | thread :: threads =>
    match os.getThreadContext .DEBUG_REGISTERS thread.hThread with
    | none => getBreakpointByRegIn os reg threads
    | some ctx =>
      if ctx.Dr7 &&& BitField.ofInt _ (1#32 <<< (reg.toInt.toNat * 2)) ≠ 0 then
        if reg = .NOP then .empty
        else
          ⟨thread.hThread, ctx.drOf reg, reg,
            .ofField (BitField.field ctx.Dr7 (16 + reg.toInt.toNat * 4)),
            .ofField (BitField.field ctx.Dr7 (18 + reg.toInt.toNat * 4))⟩
      else getBreakpointByRegIn os reg threads

def getBreakpointByReg (reg : DRReg) (d : Debugger b) : HwBp b :=
  getBreakpointByRegIn d.os reg d.threads

def isHardwareBreakpointIn (os : Os b) (address : LPVOID b) : List (Thread b) → DRReg
  | [] => .NOP
  | thread :: threads =>
    match os.getThreadContext .DEBUG_REGISTERS thread.hThread with
    | none => isHardwareBreakpointIn os address threads
    | some ctx =>
      if ctx.Dr7 &&& 0x1 ≠ 0 ∧ ctx.Dr0 = address then .DR0
      else if ctx.Dr7 &&& 0x4 ≠ 0 ∧ ctx.Dr1 = address then .DR1
      else if ctx.Dr7 &&& 0x10 ≠ 0 ∧ ctx.Dr2 = address then .DR2
      else if ctx.Dr7 &&& 0x40 ≠ 0 ∧ ctx.Dr3 = address then .DR3
      else isHardwareBreakpointIn os address threads

def isHardwareBreakpointAt (address : LPVOID b) (d : Debugger b) : DRReg :=
  isHardwareBreakpointIn d.os address d.threads

/-! ## What a successful call does -/

theorem getThreadContext_assign {c x : Context b} {bp : HwBp b}
    (h : (Context.zero.merge .DEBUG_REGISTERS c).assign bp = some x) :
    c.assign bp = some (c.merge .DEBUG_REGISTERS x) := by
  revert h
  cases hreg : bp.reg <;> simp only [Context.assign, Context.withDr, hreg, Option.map_some,
    Option.map_none, Option.some.injEq, reduceCtorEq, false_implies] <;> rintro rfl <;> rfl

theorem merge_release (c : Context b) (reg : DRReg) :
    c.merge .DEBUG_REGISTERS ((Context.zero.merge .DEBUG_REGISTERS c).release reg) =
      c.release reg := by
  cases reg <;> rfl

theorem setHardwareBreakpointOnThread_true {bp : HwBp b} {d : Debugger b}
    (h : (d.setHardwareBreakpointOnThread bp).2 = true) :
    ∃ tid ctx, d.os.handles.lookup bp.hThread = some tid ∧
      (d.os.context tid).assign bp = some ctx ∧ (bp.type = .EXECUTE → bp.len = .BYTE) ∧
      (d.setHardwareBreakpointOnThread bp).1 =
        { d with
          os := d.os.withContext tid ctx
          hwBreakpoints := d.hwBreakpoints.insert bp.address bp } := by
  unfold setHardwareBreakpointOnThread at h ⊢
  split_ifs at h ⊢ with hlen
  split at h
  · cases h
  · next ctx hget =>
    split at h
    · cases h
    · next x hassign =>
      split at h
      · cases h
      · next os₁ h₁ =>
        split at h
        · cases h
        · next os₂ h₂ =>
          split at h
          · cases h
          · next os₃ h₃ =>
            obtain ⟨tid, hl, -, rfl⟩ := Os.getThreadContext_eq_some.mp hget
            obtain ⟨tid', hl', rfl⟩ := Os.resumed_eq h₁ h₂ h₃
            obtain rfl : tid = tid' := Option.some.inj (hl.symm.trans hl')
            refine ⟨tid, _, hl, getThreadContext_assign hassign, ?_, ?_⟩
            · intro htype
              by_contra hne
              exact hlen ⟨htype, hne⟩
            · rfl

theorem setHardwareBreakpointOnThread_reliable {bp : HwBp b} {d : Debugger b} {tid : DWORD}
    {i : Fin 4} (hr : d.os.Reliable) (hl : d.os.handles.lookup bp.hThread = some tid)
    (hreg : bp.reg = .ofSlot i) (hlen : bp.type = .EXECUTE → bp.len = .BYTE) :
    (d.setHardwareBreakpointOnThread bp).2 = true := by
  have hcheck : ¬ (bp.type = .EXECUTE ∧ bp.len ≠ .BYTE) := fun hc => hc.2 (hlen hc.1)
  obtain ⟨ctx, hassign, -⟩ :=
    (Context.zero.merge .DEBUG_REGISTERS (d.os.context tid)).assign_eq hreg
  obtain ⟨os₁, os₂, h₁, h₂, h₃⟩ := hr.suspend_set_resume hl .DEBUG_REGISTERS ctx
  simp only [setHardwareBreakpointOnThread, if_neg hcheck, hr.getThreadContext hl, hassign, h₁, h₂,
    h₃]

theorem clearHardwareBreakpointOnThread_true {hThread : HANDLE} {reg : DRReg} {d : Debugger b}
    (h : (d.clearHardwareBreakpointOnThread hThread reg).2 = true) :
    ∃ tid i, d.os.handles.lookup hThread = some tid ∧ reg = .ofSlot i ∧
      (d.clearHardwareBreakpointOnThread hThread reg).1 =
        { d with os := d.os.withContext tid ((d.os.context tid).release reg) }.untrack hThread reg
          ((d.os.context tid).drOf reg) := by
  unfold clearHardwareBreakpointOnThread at h ⊢
  split_ifs at h ⊢ with hreg
  split at h
  · cases h
  · next ctx hget =>
    split at h
    · cases h
    · next os₁ h₁ =>
      simp only [Bool.and_eq_true, Option.isSome_iff_exists] at h
      obtain ⟨⟨os₂, h₂⟩, os₃, h₃⟩ := h
      simp only [h₂, Option.getD_some] at h₃
      obtain ⟨tid, hl, -, rfl⟩ := Os.getThreadContext_eq_some.mp hget
      obtain ⟨tid', hl', rfl⟩ := Os.resumed_eq h₁ h₂ h₃
      obtain rfl : tid = tid' := Option.some.inj (hl.symm.trans hl')
      have hne : reg ≠ .NOP := by
        rintro rfl
        exact hreg (Or.inl (by decide))
      obtain ⟨i, rfl⟩ := DRReg.eq_ofSlot hne
      refine ⟨tid, i, hl, rfl, ?_⟩
      simp only [h₂, Option.getD_some, h₃, merge_release]
      fin_cases i <;> rfl

theorem clearHardwareBreakpointOnThread_reliable {hThread : HANDLE} {d : Debugger b} {tid : DWORD}
    (hr : d.os.Reliable) (hl : d.os.handles.lookup hThread = some tid) (i : Fin 4) :
    (d.clearHardwareBreakpointOnThread hThread (.ofSlot i)).2 = true := by
  have hcheck : ¬ ((DRReg.ofSlot i).toInt < 0 ∨ (DRReg.ofSlot i).toInt > 3) := by
    revert i
    decide
  obtain ⟨os₁, os₂, h₁, h₂, h₃⟩ := hr.suspend_set_resume hl .DEBUG_REGISTERS
    ((Context.zero.merge .DEBUG_REGISTERS (d.os.context tid)).release (.ofSlot i))
  simp only [clearHardwareBreakpointOnThread, if_neg hcheck, hr.getThreadContext hl, h₁, h₂,
    Option.getD_some, h₃, Option.isSome_some, Bool.and_self]

theorem untrack_eq (hThread : HANDLE) (reg : DRReg) (a : LPVOID b) (d : Debugger b) :
    ∃ tracked, d.untrack hThread reg a = { d with hwBreakpoints := tracked } := by
  unfold untrack
  split_ifs
  · exact ⟨d.hwBreakpoints, rfl⟩
  · split
    · exact ⟨d.hwBreakpoints, rfl⟩
    · split_ifs
      · exact ⟨_, rfl⟩
      · exact ⟨d.hwBreakpoints, rfl⟩

theorem clearHardwareBreakpointOnThread_eq {hThread : HANDLE} {reg : DRReg} {d : Debugger b}
    (h : (d.clearHardwareBreakpointOnThread hThread reg).2 = true) :
    ∃ tid i tracked, d.os.handles.lookup hThread = some tid ∧ reg = .ofSlot i ∧
      (d.clearHardwareBreakpointOnThread hThread reg).1 =
        { d with
          os := d.os.withContext tid ((d.os.context tid).release reg)
          hwBreakpoints := tracked } := by
  obtain ⟨tid, i, hl, hreg, he⟩ := clearHardwareBreakpointOnThread_true h
  obtain ⟨tracked, ht⟩ := untrack_eq hThread reg ((d.os.context tid).drOf reg)
    { d with os := d.os.withContext tid ((d.os.context tid).release reg) }
  exact ⟨tid, i, tracked, hl, hreg, he.trans ht⟩

end Debugger
end RoboDbg
