import RoboDbg.Delivery
import RoboDbg.SingleSteps

/-!
# Members that no constructor sets

Two objects may differ in the pending restore, which the constructors leave as it
is. All functions but those of the exception branches pass these members by. A
completed step reads them; they have been written by then if a callback has
answered `RESTORE`, and those of a hardware restore if the hit was a hardware one.
-/

namespace RoboDbg

variable {b : Build}

structure Pending (b : Build) where
  bpAddrToRestore : LPVOID b
  needToRestoreBreakpoint : Bool
  lastBpType : ℤ
  restoreHwBP : Bool
  hwBPToRestore : HwBp b
  hwBPThreadToRestore : HANDLE

def Pending.restoring (addr : LPVOID b) (bpType : BreakpointAction) (p : Pending b) : Pending b :=
  { p with bpAddrToRestore := addr, needToRestoreBreakpoint := true, lastBpType := bpType.toInt }

namespace Debugger

def pending (d : Debugger b) : Pending b :=
  ⟨d.bpAddrToRestore, d.needToRestoreBreakpoint, d.lastBpType, d.restoreHwBP, d.hwBPToRestore,
    d.hwBPThreadToRestore⟩

def withPending (p : Pending b) (d : Debugger b) : Debugger b :=
  { d with
    bpAddrToRestore := p.bpAddrToRestore
    needToRestoreBreakpoint := p.needToRestoreBreakpoint
    lastBpType := p.lastBpType
    restoreHwBP := p.restoreHwBP
    hwBPToRestore := p.hwBPToRestore
    hwBPThreadToRestore := p.hwBPThreadToRestore }

/-- A callback of a subclass neither reads nor writes the private members. -/
def Blind (cb : Callbacks b) : Prop :=
  ∀ c d p, cb c (d.withPending p) = ((cb c d).1.withPending p, (cb c d).2)

/-- Some hardware hit was answered with `RESTORE`. -/
def HardwareRestoreAsked (d : Debugger b) : Prop :=
  ∃ a h reg, (.onHardwareBreakpoint a h reg, .RESTORE) ∈ d.trace

/-- A trap that is handled as a step finds the members written that it reads. -/
def StepsInitialised (d : Debugger b) : DebugEvent b → Prop
  | .EXCEPTION e => d.os.fails (.openThread e.dwThreadId) = false →
      e.ExceptionCode = EXCEPTION_SINGLE_STEP → d.stepping = true →
        .RESTORE ∈ d.answers ∧ (d.needToRestoreBreakpoint = true → d.HardwareRestoreAsked)
  | _ => True

section Fields

variable (p : Pending b) (d : Debugger b)

@[simp] theorem withPending_os : (d.withPending p).os = d.os := rfl

@[simp] theorem withPending_breakpoints : (d.withPending p).breakpoints = d.breakpoints := rfl

@[simp] theorem withPending_hwBreakpoints : (d.withPending p).hwBreakpoints = d.hwBreakpoints := rfl

@[simp] theorem withPending_pending : d.withPending d.pending = d := rfl

end Fields

variable {d d' : Debugger b} {p : Pending b} {hThread : HANDLE}

/-! ## Functions that pass the members by -/

theorem withPending_ite {c : Prop} [Decidable c] {x y x' y' : Debugger b}
    (hx : x' = x.withPending p) (hy : y' = y.withPending p) :
    (if c then x' else y') = (if c then x else y).withPending p := by
  split_ifs
  · exact hx
  · exact hy

theorem withPending_setBreakpoint (a : LPVOID b) :
    (d.withPending p).setBreakpoint a = (d.setBreakpoint a).withPending p :=
  withPending_ite rfl rfl

theorem withPending_restoreBreakpoint (a : LPVOID b) :
    (d.withPending p).restoreBreakpoint a = (d.restoreBreakpoint a).withPending p := by
  simp only [restoreBreakpoint, withPending_os, withPending_breakpoints]
  cases d.breakpoints[a]? with
  | none => rfl
  | some original =>
    cases d.os.memory.readByte a with
    | none => rfl
    | some cur =>
      dsimp only
      split_ifs
      · rfl
      · rfl

theorem withPending_enableSingleStep :
    (d.withPending p).enableSingleStep hThread = (d.enableSingleStep hThread).withPending p := by
  simp only [enableSingleStep, withPending_os]
  cases d.os.getThreadContext .CONTROL hThread with
  | none => rfl
  | some ctx => rfl

theorem withPending_decrementIP :
    (d.withPending p).decrementIP hThread = (d.decrementIP hThread).withPending p := rfl

theorem withPending_openThreads (tids : List DWORD) :
    (d.withPending p).openThreads tids = (d.openThreads tids).withPending p := by
  induction tids generalizing d with
  | nil => rfl
  | cons tid tids ih =>
    simp only [openThreads, withPending_os]
    cases d.os.openThread tid with
    | none => exact ih
    | some r => exact ih (d := { d with os := r.2, threads := d.threads ++ [⟨r.1, tid, 0, 0⟩] })

theorem withPending_actualizeThreadList :
    (d.withPending p).actualizeThreadList = d.actualizeThreadList.withPending p :=
  withPending_ite rfl (withPending_ite rfl (withPending_openThreads (d := { d with threads := [] }) _))

theorem withPending_forThreads {op : Thread b → Debugger b → Debugger b × Bool}
    (hop : ∀ thread d, op thread (d.withPending p) = (op thread d).map (withPending p) id)
    (threads : List (Thread b)) :
    forThreads op threads (d.withPending p) = (forThreads op threads d).map (withPending p) id := by
  induction threads generalizing d with
  | nil => rfl
  | cons thread threads ih =>
    simp only [forThreads, hop, Prod.map_fst, Prod.map_snd, id_eq, ih]
    rfl

theorem withPending_setHardwareBreakpointOnThread (bp : HwBp b) :
    (d.withPending p).setHardwareBreakpointOnThread bp =
      (d.setHardwareBreakpointOnThread bp).map (withPending p) id := by
  simp only [setHardwareBreakpointOnThread, withPending_os, withPending_hwBreakpoints]
  split_ifs
  · rfl
  cases d.os.getThreadContext .DEBUG_REGISTERS bp.hThread with
  | none => rfl
  | some ctx =>
    dsimp only
    cases ctx.assign bp with
    | none => rfl
    | some ctx =>
      dsimp only
      cases d.os.suspendThread bp.hThread with
      | none => rfl
      | some os =>
        dsimp only
        cases os.setThreadContext .DEBUG_REGISTERS bp.hThread ctx with
        | none => rfl
        | some os =>
          dsimp only
          cases os.resumeThread bp.hThread with
          | none => rfl
          | some os => rfl

theorem withPending_setHardwareBreakpoint (bp : HwBp b) :
    (d.withPending p).setHardwareBreakpoint bp =
      (d.setHardwareBreakpoint bp).map (withPending p) id := by
  simp only [setHardwareBreakpoint, withPending_actualizeThreadList]
  split_ifs
  · rfl
  · exact withPending_forThreads (fun _ _ => withPending_setHardwareBreakpointOnThread _) _

theorem withPending_untrack (reg : DRReg) (a : LPVOID b) :
    (d.withPending p).untrack hThread reg a = (d.untrack hThread reg a).withPending p := by
  simp only [untrack, withPending_hwBreakpoints]
  split_ifs
  · rfl
  cases d.hwBreakpoints[a]? with
  | none => rfl
  | some stored =>
    dsimp only
    split_ifs
    · rfl
    · rfl

theorem withPending_clearHardwareBreakpointOnThread (reg : DRReg) :
    (d.withPending p).clearHardwareBreakpointOnThread hThread reg =
      (d.clearHardwareBreakpointOnThread hThread reg).map (withPending p) id := by
  simp only [clearHardwareBreakpointOnThread, withPending_os]
  split_ifs
  · rfl
  cases d.os.getThreadContext .DEBUG_REGISTERS hThread with
  | none => rfl
  | some ctx =>
    dsimp only
    cases d.os.suspendThread hThread with
    | none => rfl
    | some os =>
      exact congrArg (fun d => (d, _)) (withPending_untrack (d := { d with os := _ }) reg _)

theorem withPending_clearHardwareBreakpoint (reg : DRReg) :
    (d.withPending p).clearHardwareBreakpoint reg =
      (d.clearHardwareBreakpoint reg).map (withPending p) id := by
  simp only [clearHardwareBreakpoint, withPending_actualizeThreadList]
  exact withPending_forThreads (fun _ _ => withPending_clearHardwareBreakpointOnThread reg) _

theorem withPending_call {cb : Callbacks b} (hcb : Blind cb) (c : Call b) :
    (d.withPending p).call cb c = (d.call cb c).map (withPending p) id := by
  simp only [call, hcb c d p]
  rfl

/-! ## What two objects agree on -/

structure Knows (d : Debugger b) (p : Pending b) : Prop where
  software : .RESTORE ∈ d.answers → p.bpAddrToRestore = d.bpAddrToRestore ∧
    p.needToRestoreBreakpoint = d.needToRestoreBreakpoint ∧ p.lastBpType = d.lastBpType
  hardware : d.HardwareRestoreAsked →
    p.restoreHwBP = d.restoreHwBP ∧ p.hwBPToRestore = d.hwBPToRestore

/-- Two objects that differ at most in members that have not been written. -/
def Agree (d d' : Debugger b) : Prop := ∃ p, d' = d.withPending p ∧ d.Knows p

theorem Agree.refl (d : Debugger b) : Agree d d :=
  ⟨d.pending, rfl, fun _ => ⟨rfl, rfl, rfl⟩, fun _ => ⟨rfl, rfl⟩⟩

theorem pending_of_withPending {f : Debugger b → Debugger b}
    (hf : ∀ p, f (d.withPending p) = (f d).withPending p) : (f d).pending = d.pending := by
  have hsame := hf d.pending
  rw [withPending_pending] at hsame
  rw [hsame]
  rfl

theorem restore_mem_answers :
    .RESTORE ∈ d.answers ↔ ∃ c : Call b, (c, .RESTORE) ∈ d.trace ∧ c.returnsAction = true := by
  simp [answers, List.mem_map, List.mem_filter]

def NoNewRestore (d d₁ : Debugger b) : Prop :=
  ∀ c : Call b, (c, .RESTORE) ∈ d₁.trace → c.returnsAction = true → (c, .RESTORE) ∈ d.trace

theorem NoNewRestore.of_trace {d₁ : Debugger b} (h : d₁.trace = d.trace) : NoNewRestore d d₁ := by
  intro c hc _
  rwa [h] at hc

theorem NoNewRestore.answers {d₁ : Debugger b} (h : NoNewRestore d d₁)
    (hasked : .RESTORE ∈ d₁.answers) : .RESTORE ∈ d.answers := by
  obtain ⟨c, hmem, hc⟩ := restore_mem_answers.mp hasked
  exact restore_mem_answers.mpr ⟨c, h c hmem hc, hc⟩

theorem NoNewRestore.hardware {d₁ : Debugger b} (h : NoNewRestore d d₁)
    (hasked : d₁.HardwareRestoreAsked) : d.HardwareRestoreAsked := by
  obtain ⟨a, h', reg, hmem⟩ := hasked
  exact ⟨a, h', reg, h _ hmem rfl⟩

theorem NoNewRestore.trans {d₁ d₂ : Debugger b} (h : NoNewRestore d d₁)
    (h' : NoNewRestore d₁ d₂) : NoNewRestore d d₂ :=
  fun c hmem hc => h c (h' c hmem hc) hc

theorem NoNewRestore.call {cb : Callbacks b} {c : Call b}
    (hc : c.returnsAction = true → (d.call cb c).2 ≠ .RESTORE) :
    NoNewRestore d (d.call cb c).1 := by
  intro c' hmem hc'
  rcases List.mem_append.mp hmem with hold | hnew
  · exact hold
  · obtain ⟨rfl, hans⟩ := Prod.mk.inj (List.mem_singleton.mp hnew)
    exact absurd hans.symm (hc hc')

theorem Knows.of_same {d₁ : Debugger b} (h : d.Knows p) (hpending : d₁.pending = d.pending)
    (htrace : NoNewRestore d d₁) : d₁.Knows p := by
  simp only [pending, Pending.mk.injEq] at hpending
  obtain ⟨haddr, hneed, hlast, hhw, hbp, -⟩ := hpending
  constructor
  · intro hasked
    rw [haddr, hneed, hlast]
    exact h.software (htrace.answers hasked)
  · intro hasked
    rw [hhw, hbp]
    exact h.hardware (htrace.hardware hasked)

/-- What passes the members by keeps the agreement unless a `RESTORE` is answered. -/
theorem Agree.map {f : Debugger b → Debugger b} (h : Agree d d')
    (hf : ∀ p, f (d.withPending p) = (f d).withPending p) (htrace : NoNewRestore d (f d)) :
    Agree (f d) (f d') := by
  obtain ⟨p, rfl, hp⟩ := h
  exact ⟨p, hf p, hp.of_same (pending_of_withPending hf) htrace⟩

variable {cb : Callbacks b}

theorem withPending_call_fst (hcb : Blind cb) (c : Call b) (p : Pending b) :
    ((d.withPending p).call cb c).1 = (d.call cb c).1.withPending p := by
  rw [withPending_call hcb]
  rfl

theorem Agree.call (h : Agree d d') (hcb : Blind cb) {c : Call b} (hc : c.returnsAction = false) :
    Agree (d.call cb c).1 (d'.call cb c).1 :=
  h.map (f := fun d => (d.call cb c).1) (fun p => withPending_call_fst hcb c p)
    (.call (fun hc' => by rw [hc] at hc'; cases hc'))

/-! ## The branches of an exception -/

theorem pending_enableSingleStep (hThread : HANDLE) (d : Debugger b) :
    (d.enableSingleStep hThread).pending = d.pending :=
  pending_of_withPending (fun _ => withPending_enableSingleStep)

theorem withPending_clear_fst (reg : DRReg) (p : Pending b) :
    ((d.withPending p).clearHardwareBreakpoint reg).1 =
      (d.clearHardwareBreakpoint reg).1.withPending p := by
  rw [withPending_clearHardwareBreakpoint]
  rfl

theorem pending_setHardwareBreakpoint (bp : HwBp b) (d : Debugger b) :
    (d.setHardwareBreakpoint bp).1.pending = d.pending := by
  apply pending_of_withPending (f := fun d => (d.setHardwareBreakpoint bp).1)
  intro p
  rw [withPending_setHardwareBreakpoint]
  rfl

theorem pending_call (hcb : Blind cb) (c : Call b) : (d.call cb c).1.pending = d.pending :=
  pending_of_withPending (f := fun d => (d.call cb c).1) (fun p => withPending_call_fst hcb c p)

theorem hardwareRestoreAsked_of_call {c : Call b} (hc : c.isHardware = false)
    (hasked : (d.call cb c).1.HardwareRestoreAsked) : d.HardwareRestoreAsked := by
  obtain ⟨a, h, reg, hmem⟩ := hasked
  rcases List.mem_append.mp hmem with hold | hnew
  · exact ⟨a, h, reg, hold⟩
  · obtain ⟨rfl, -⟩ := Prod.mk.inj (List.mem_singleton.mp hnew)
    cases hc

theorem Knows.restoring {d₂ : Debugger b} {a : LPVOID b} {bpType : BreakpointAction}
    (h : d.Knows p) (hpending : d₂.pending = d.pending.restoring a bpType)
    (hhw : d₂.HardwareRestoreAsked → d.HardwareRestoreAsked) : d₂.Knows (p.restoring a bpType) := by
  simp only [pending, Pending.restoring, Pending.mk.injEq] at hpending
  obtain ⟨haddr, hneed, hlast, hrestore, hbp, -⟩ := hpending
  constructor
  · intro _
    exact ⟨haddr.symm, hneed.symm, hlast.symm⟩
  · intro hasked
    rw [hrestore, hbp]
    exact h.hardware (hhw hasked)

/-- A software hit or a step was reported, and answered with `bpType`. -/
structure Asked (d : Debugger b) (bpType : BreakpointAction) (d₁ : Debugger b) : Prop where
  pending : d₁.pending = d.pending
  quiet : bpType ≠ .RESTORE → NoNewRestore d d₁
  hardware : d₁.HardwareRestoreAsked → d.HardwareRestoreAsked

theorem Asked.call (hcb : Blind cb) (a : LPVOID b) :
    Asked d (d.call cb (.onBreakpoint a hThread)).2 (d.call cb (.onBreakpoint a hThread)).1 where
  pending := pending_call hcb _
  quiet := fun hne => .call (fun _ => hne)
  hardware := hardwareRestoreAsked_of_call rfl

theorem Asked.enableSingleStep {bpType : BreakpointAction} {d₁ : Debugger b}
    (h : Asked d bpType d₁) (hThread : HANDLE) : Asked d bpType (d₁.enableSingleStep hThread) where
  pending := (pending_enableSingleStep hThread d₁).trans h.pending
  quiet := fun hne => (h.quiet hne).trans (.of_trace (enableSingleStep_frame hThread d₁).trace)
  hardware := by
    rintro ⟨a, h', reg, hmem⟩
    rw [(enableSingleStep_frame hThread d₁).trace] at hmem
    exact h.hardware ⟨a, h', reg, hmem⟩

theorem Asked.restoring {bpType : BreakpointAction} {d₁ d₂ : Debugger b} {a : LPVOID b}
    (h : Asked d bpType d₁) (hp : d.Knows p)
    (hpending : d₂.pending = d₁.pending.restoring a bpType) (htrace : d₂.trace = d₁.trace) :
    d₂.Knows (p.restoring a bpType) := by
  rw [h.pending] at hpending
  apply hp.restoring hpending
  rintro ⟨a', h', reg, hmem⟩
  rw [htrace] at hmem
  exact h.hardware ⟨a', h', reg, hmem⟩

theorem Asked.answerBreakpoint {bpType : BreakpointAction} {d₁ : Debugger b}
    (h : Asked d bpType d₁) (hp : d.Knows p) (a : LPVOID b) :
    Agree (d₁.answerBreakpoint a hThread bpType)
      ((d₁.withPending p).answerBreakpoint a hThread bpType) := by
  have hstep := h.enableSingleStep hThread
  cases bpType with
  | BREAK => exact ⟨p, rfl, hp.of_same h.pending (h.quiet (by decide))⟩
  | SINGLE_STEP =>
    refine ⟨p, ?_, hp.of_same hstep.pending (hstep.quiet (by decide))⟩
    change { (d₁.withPending p).enableSingleStep hThread with stepping := true } = _
    rw [withPending_enableSingleStep]
    rfl
  | RESTORE =>
    refine ⟨p.restoring a .RESTORE, ?_, hstep.restoring hp rfl rfl⟩
    change { (d₁.withPending p).enableSingleStep hThread with
      stepping := true
      bpAddrToRestore := a
      lastBpType := BreakpointAction.RESTORE.toInt
      needToRestoreBreakpoint := true } = _
    rw [withPending_enableSingleStep]
    rfl

theorem Asked.answerStep {bpType : BreakpointAction} {d₁ : Debugger b}
    (h : Asked d bpType d₁) (hp : d.Knows p) (a : LPVOID b) :
    Agree (d₁.answerStep a hThread bpType) ((d₁.withPending p).answerStep a hThread bpType) := by
  by_cases hbreak : bpType = .BREAK
  · subst hbreak
    exact ⟨p, rfl, hp.of_same h.pending (h.quiet (by decide))⟩
  · let d₂ := d₁.withPending (d₁.pending.restoring a bpType)
    have heq (p : Pending b) : (d₁.withPending p).answerStep a hThread bpType =
        { (d₁.withPending (p.restoring a bpType)).enableSingleStep hThread with
          stepping := true } := by
      rw [Debugger.answerStep, if_pos hbreak]
      rfl
    have hfirst := heq d₁.pending
    rw [withPending_pending] at hfirst
    rw [hfirst, heq p]
    refine ⟨p.restoring a bpType, ?_, h.restoring hp ?_ ?_⟩
    · rw [withPending_enableSingleStep, withPending_enableSingleStep]
      rfl
    · exact pending_enableSingleStep hThread d₂
    · exact (enableSingleStep_frame hThread d₂).trace

theorem Agree.handleBreakpoint (hcb : Blind cb) (h : Agree d d') (a : LPVOID b) :
    Agree (d.handleBreakpoint cb a hThread) (d'.handleBreakpoint cb a hThread) := by
  obtain ⟨p, rfl, hp⟩ := h
  cases hx : d.breakpoints[a]? with
  | none =>
    rw [handleBreakpoint_of_not_listed hx,
      handleBreakpoint_of_not_listed (d := d.withPending p) hx]
    exact ⟨p, rfl, hp⟩
  | some x =>
    rw [handleBreakpoint_of_listed hx, handleBreakpoint_of_listed (d := d.withPending p) hx]
    let d₁ := (d.restoreBreakpoint a).decrementIP hThread
    have hpending : d₁.pending = d.pending :=
      (pending_of_withPending (fun _ => withPending_decrementIP)).trans
        (pending_of_withPending (fun _ => withPending_restoreBreakpoint a))
    have htrace : d₁.trace = d.trace :=
      (decrementIP_frame hThread _).trace.trans (restoreBreakpoint_frame a d).trace
    have hp₁ : d₁.Knows p := hp.of_same hpending (.of_trace htrace)
    rw [withPending_restoreBreakpoint, withPending_decrementIP, withPending_call hcb]
    exact (Asked.call hcb a).answerBreakpoint hp₁ a

theorem Agree.restorePending (h : Agree d d') (hasked : .RESTORE ∈ d.answers)
    (hhw : d.needToRestoreBreakpoint = true → d.HardwareRestoreAsked) :
    Agree d.restorePending d'.restorePending := by
  obtain ⟨p, rfl, hp⟩ := h
  obtain ⟨haddr, hneed, -⟩ := hp.software hasked
  cases hneeded : d.needToRestoreBreakpoint with
  | false =>
    rw [restorePending_of_none hneeded,
      restorePending_of_none (d := d.withPending p) (hneed.trans hneeded)]
    exact ⟨p, rfl, hp⟩
  | true =>
    obtain ⟨hrestore, hbp⟩ := hp.hardware (hhw hneeded)
    cases hhard : d.restoreHwBP with
    | true =>
      have hcommute := withPending_setHardwareBreakpoint (d := d) (p := p) d.hwBPToRestore
      have heq : (d.withPending p).restorePending =
          { ((d.withPending p).setHardwareBreakpoint d.hwBPToRestore).1 with
            restoreHwBP := false
            needToRestoreBreakpoint := false } := by
        rw [← hbp]
        exact restorePending_of_hardware (hneed.trans hneeded) (hrestore.trans hhard)
      rw [restorePending_of_hardware hneeded hhard, heq, hcommute]
      let d₁ := (d.setHardwareBreakpoint d.hwBPToRestore).1
      have hp₁ : d₁.Knows p := hp.of_same (pending_setHardwareBreakpoint _ d)
        (.of_trace (setHardwareBreakpoint_frame _ d).trace)
      refine ⟨{ p with restoreHwBP := false, needToRestoreBreakpoint := false }, rfl, ?_, ?_⟩
      · intro hasked'
        obtain ⟨haddr', -, hlast'⟩ := hp₁.software hasked'
        exact ⟨haddr', rfl, hlast'⟩
      · intro hasked'
        exact ⟨rfl, (hp₁.hardware hasked').2⟩
    | false =>
      have heq : (d.withPending p).restorePending =
          { (d.withPending p).setBreakpoint d.bpAddrToRestore with
            needToRestoreBreakpoint := false } := by
        rw [← haddr]
        exact restorePending_of_software (hneed.trans hneeded) (hrestore.trans hhard)
      rw [restorePending_of_software hneeded hhard, heq, withPending_setBreakpoint]
      have hp₁ : (d.setBreakpoint d.bpAddrToRestore).Knows p :=
        hp.of_same (pending_of_withPending (fun _ => withPending_setBreakpoint _))
          (.of_trace (setBreakpoint_frame _ d).trace)
      refine ⟨{ p with needToRestoreBreakpoint := false }, rfl, ?_, hp₁.hardware⟩
      intro hasked'
      obtain ⟨haddr', -, hlast'⟩ := hp₁.software hasked'
      exact ⟨haddr', rfl, hlast'⟩

theorem Agree.handleStep (hcb : Blind cb) (h : Agree d d') (hasked : .RESTORE ∈ d.answers)
    (hhw : d.needToRestoreBreakpoint = true → d.HardwareRestoreAsked) (a : LPVOID b) :
    Agree (d.handleStep cb a hThread) (d'.handleStep cb a hThread) := by
  have hanswers : d.restorePending.answers = d.answers := answers_congr (restorePending_trace d)
  obtain ⟨p, hp', hp⟩ := h.restorePending hasked hhw
  have hlast : d'.restorePending.lastBpType = d.restorePending.lastBpType := by
    rw [hp']
    exact (hp.software (by rw [hanswers]; exact hasked)).2.2
  by_cases hsingle : d.restorePending.lastBpType = BreakpointAction.SINGLE_STEP.toInt
  · have hsingle' := hlast.trans hsingle
    simp only [Debugger.handleStep, if_pos hsingle, if_pos hsingle']
    rw [hp', withPending_call hcb]
    exact (Asked.call hcb a).answerStep hp a
  · have hsingle' : ¬ d'.restorePending.lastBpType = BreakpointAction.SINGLE_STEP.toInt := by
      rw [hlast]
      exact hsingle
    simp only [Debugger.handleStep, if_neg hsingle, if_neg hsingle']
    rw [hp']
    exact ⟨p, rfl, hp.of_same rfl (.of_trace rfl)⟩

/-- An answer to a hardware hit that is not `RESTORE` passes the members by; `RESTORE`
writes them all. -/
theorem Agree.handleHardware (hcb : Blind cb) (h : Agree d d') (code : DWORD) (a : LPVOID b) :
    Agree (d.handleHardware cb code a hThread) (d'.handleHardware cb code a hThread) := by
  by_cases hreg : d.isHardwareBreakpointAt a = .NOP
  · have heq (d : Debugger b) (hreg : d.isHardwareBreakpointAt a = .NOP) :
        d.handleHardware cb code a hThread = (d.call cb (.onUnknownException a code)).1 := by
      simp only [Debugger.handleHardware, hreg, ne_eq, not_true_eq_false, if_false]
    obtain ⟨p, rfl, hp⟩ := h
    rw [heq d hreg, heq (d.withPending p) hreg]
    exact Agree.call ⟨p, rfl, hp⟩ hcb rfl
  · obtain ⟨p, rfl, hp⟩ := h
    let reg := d.isHardwareBreakpointAt a
    let c : Call b := .onHardwareBreakpoint a hThread reg
    have heq (d : Debugger b) (hsame : d.isHardwareBreakpointAt a = reg) :
        d.handleHardware cb code a hThread =
          (d.call cb c).1.answerHardware a hThread reg (d.call cb c).2 := by
      simp only [Debugger.handleHardware, hsame]
      rw [if_pos hreg]
    rw [heq d rfl, heq (d.withPending p) rfl, withPending_call hcb]
    have hpending := pending_call hcb (d := d) c
    have hquiet : (c.returnsAction = true → (d.call cb c).2 ≠ .RESTORE) →
        NoNewRestore d (d.call cb c).1 := .call
    change Agree _ (((d.call cb c).1.withPending p).answerHardware a hThread reg (d.call cb c).2)
    generalize d.call cb c = r at hpending hquiet
    obtain ⟨d₁, bpType⟩ := r
    cases bpType with
    | RESTORE => exact .refl _
    | BREAK =>
      have hp₁ : d₁.Knows p := hp.of_same hpending (hquiet (fun _ => by simp))
      exact Agree.map (f := fun d => (d.clearHardwareBreakpoint reg).1) ⟨p, rfl, hp₁⟩
        (withPending_clear_fst reg) (.of_trace (clearHardwareBreakpoint_frame reg d₁).trace)
    | SINGLE_STEP =>
      have hp₁ : d₁.Knows p := hp.of_same hpending (hquiet (fun _ => by simp))
      let d₂ : Debugger b := { d₁.enableSingleStep hThread with stepping := true }
      have hd₂ (p : Pending b) :
          { (d₁.withPending p).enableSingleStep hThread with stepping := true } =
            d₂.withPending p := by
        rw [withPending_enableSingleStep]
        rfl
      have hp₂ : d₂.Knows p := hp₁.of_same (pending_enableSingleStep hThread d₁)
        (.of_trace (enableSingleStep_frame hThread d₁).trace)
      change Agree (d₂.clearHardwareBreakpoint reg).1 (Debugger.clearHardwareBreakpoint reg
        { (d₁.withPending p).enableSingleStep hThread with stepping := true }).1
      rw [hd₂]
      exact Agree.map (f := fun d => (d.clearHardwareBreakpoint reg).1) ⟨p, rfl, hp₂⟩
        (withPending_clear_fst reg) (.of_trace (clearHardwareBreakpoint_frame reg d₂).trace)

/-! ## Events and runs -/

theorem Agree.dispatch (hcb : Blind cb) (h : Agree d d') (hThread : HANDLE) {e : ExceptionEvent b}
    (hinit : e.ExceptionCode = EXCEPTION_SINGLE_STEP → d.stepping = true →
      .RESTORE ∈ d.answers ∧ (d.needToRestoreBreakpoint = true → d.HardwareRestoreAsked)) :
    Agree (d.dispatch cb e hThread) (d'.dispatch cb e hThread) := by
  have hstepping : d'.stepping = d.stepping := by
    obtain ⟨p, rfl, -⟩ := h
    rfl
  by_cases hbp : e.ExceptionCode = EXCEPTION_BREAKPOINT
  · rw [dispatch_breakpoint hbp, dispatch_breakpoint hbp]
    exact h.handleBreakpoint hcb _
  · by_cases hss : e.ExceptionCode = EXCEPTION_SINGLE_STEP
    · cases hs : d.stepping with
      | true =>
        rw [dispatch_step hss hs, dispatch_step hss (hstepping.trans hs)]
        obtain ⟨hasked, hhw⟩ := hinit hss hs
        exact h.handleStep hcb hasked hhw _
      | false =>
        rw [dispatch_hardware hss hs, dispatch_hardware hss (hstepping.trans hs)]
        exact h.handleHardware hcb _ _
    · simp only [Debugger.dispatch, if_neg hbp, hss, false_and, if_false]
      split_ifs
      · exact h.call hcb rfl
      · exact h.call hcb rfl

theorem Agree.handleException (hcb : Blind cb) (h : Agree d d') (e : ExceptionEvent b)
    (hinit : d.StepsInitialised (.EXCEPTION e)) :
    Agree (d.handleException cb e) (d'.handleException cb e) := by
  have hos : d'.os = d.os := by
    obtain ⟨p, rfl, -⟩ := h
    rfl
  cases ho : d.os.fails (.openThread e.dwThreadId) with
  | true =>
    rw [handleException_of_refused ho, handleException_of_refused (by rw [hos]; exact ho)]
    exact h
  | false =>
    rw [handleException_of_opened ho, handleException_of_opened (by rw [hos]; exact ho), hos]
    have hopened : Agree (d.opened e.dwThreadId) (d'.opened e.dwThreadId) :=
      h.map (fun _ => rfl) (.of_trace rfl)
    have hdispatch := hopened.dispatch hcb d.os.handles.next (hinit ho)
    exact hdispatch.map (f := closing d.os.handles.next) (fun _ => rfl) (.of_trace rfl)

/-- One event keeps the agreement, and ends the loop in both or in neither. -/
theorem Agree.handleEvent (hcb : Blind cb) (h : Agree d d') (ev : DebugEvent b)
    (hinit : d.StepsInitialised ev) :
    Agree (d.handleEvent cb ev).1 (d'.handleEvent cb ev).1 ∧
      (d'.handleEvent cb ev).2 = (d.handleEvent cb ev).2 := by
  obtain ⟨p, rfl, hp⟩ := h
  have hcall {c : Call b} (hc : c.returnsAction = false) :
      Agree (d.call cb c).1 ((d.withPending p).call cb c).1 := Agree.call ⟨p, rfl, hp⟩ hcb hc
  cases ev with
  | EXCEPTION e => exact ⟨Agree.handleException hcb ⟨p, rfl, hp⟩ e hinit, rfl⟩
  | CREATE_PROCESS base =>
    let started (d : Debugger b) : Debugger b := { d with baseImageBase := base }
    have hstarted : Agree (started d) (started (d.withPending p)) :=
      Agree.map ⟨p, rfl, hp⟩ (fun _ => rfl) (.of_trace rfl)
    exact ⟨hstarted.call hcb rfl, rfl⟩
  | CREATE_THREAD tid base start =>
    cases ho : d.os.fails (.openThread tid) with
    | true =>
      have heq (d : Debugger b) (ho : d.os.fails (.openThread tid) = true) :
          d.handleEvent cb (.CREATE_THREAD tid base start) = (d, false) := by
        simp only [Debugger.handleEvent, Os.openThread, ho, if_true]
      rw [heq d ho, heq (d.withPending p) ho]
      exact ⟨⟨p, rfl, hp⟩, rfl⟩
    | false =>
      let c (h : HANDLE) : Call b := .onThreadCreate h tid base start
      let listed (h : HANDLE) (d : Debugger b) : Debugger b :=
        { d with threads := d.threads ++ [⟨h, tid, base, start⟩] }
      have heq (d : Debugger b) (ho : d.os.fails (.openThread tid) = false) :
          d.handleEvent cb (.CREATE_THREAD tid base start) =
            (listed d.os.handles.next ((d.opened tid).call cb (c d.os.handles.next)).1, false) := by
        simp only [Debugger.handleEvent, Os.openThread, ho, Bool.false_eq_true, if_false]
        rfl
      have hopened : Agree (d.opened tid) ((d.withPending p).opened tid) :=
        Agree.map ⟨p, rfl, hp⟩ (fun _ => rfl) (.of_trace rfl)
      have hcreated := hopened.call (c := c d.os.handles.next) hcb rfl
      rw [heq d ho, heq (d.withPending p) ho]
      exact ⟨hcreated.map (f := listed d.os.handles.next) (fun _ => rfl) (.of_trace rfl), rfl⟩
  | _ => exact ⟨hcall rfl, rfl⟩

theorem Agree.rounds (hcb : Blind cb) (evs : List ((Os b → Os b) × DebugEvent b))
    (h : Agree d d') (hinit : EachRound cb StepsInitialised evs d) :
    Agree (rounds cb evs d) (rounds cb evs d') := by
  induction evs generalizing d d' with
  | nil => exact h
  | cons round evs ih =>
    obtain ⟨meanwhile, ev⟩ := round
    have hloop : d'.dbgLoop = d.dbgLoop := by
      obtain ⟨p, rfl, -⟩ := h
      rfl
    have hos : d'.os = d.os := by
      obtain ⟨p, rfl, -⟩ := h
      rfl
    have harrived : Agree { d with os := meanwhile d.os } { d' with os := meanwhile d'.os } := by
      rw [hos]
      exact h.map (f := fun d₁ => { d₁ with os := meanwhile d.os }) (fun _ => rfl) (.of_trace rfl)
    unfold EachRound at hinit
    by_cases hd : d.dbgLoop = true
    · obtain ⟨hfirst, hrest⟩ := hinit hd
      obtain ⟨hstep, hends⟩ := harrived.handleEvent hcb ev hfirst
      simp only [Debugger.rounds, if_pos hd, if_pos (hloop.trans hd), hends]
      split_ifs with hend
      · exact hstep
      · exact ih hstep (hrest (Bool.eq_false_of_not_eq_true hend))
    · have hd' : ¬ d'.dbgLoop = true := by
        rw [hloop]
        exact hd
      simp only [Debugger.rounds, if_neg hd, if_neg hd']
      exact h

def fresh (os : Os b) (m : Pending b) : Debugger b :=
  construct os m.bpAddrToRestore m.needToRestoreBreakpoint m.lastBpType m.restoreHwBP
    m.hwBPToRestore m.hwBPThreadToRestore

end Debugger

open Debugger

/-- Two fresh objects on the same system make the same calls with the same answers and
leave the same system if no trap is handled as a step before a callback has answered
`RESTORE`, and no step restores anything before a hardware hit was answered so. -/
theorem loop_agrees {b : Build} {cb : Callbacks b} (hcb : Blind cb) (os : Os b)
    (m m' : Pending b) (evs : List ((Os b → Os b) × DebugEvent b))
    (hinit : EachRound cb StepsInitialised evs { fresh os m with stepping := false }) :
    (loop cb evs (fresh os m')).trace = (loop cb evs (fresh os m)).trace ∧
      (loop cb evs (fresh os m')).os = (loop cb evs (fresh os m)).os := by
  have hfresh : Agree { fresh os m with stepping := false }
      { fresh os m' with stepping := false } := by
    refine ⟨m', rfl, ?_, ?_⟩
    · intro hasked
      cases hasked
    · rintro ⟨a, h, reg, hmem⟩
      cases hmem
  obtain ⟨p, hp, -⟩ := hfresh.rounds hcb evs hinit
  have hloop : loop cb evs (fresh os m') = (loop cb evs (fresh os m)).withPending p := hp
  rw [hloop]
  exact ⟨rfl, rfl⟩

/-- Breakpoints are set when the process starts; every hit gets the same answer. -/
def settingAtStart (answer : BreakpointAction) : Callbacks .x64 := fun c d =>
  match c with
  | .onStart _ _ =>
    (((d.setBreakpoint 5).setHardwareBreakpoint ⟨0, 9, .DR1, .EXECUTE, .BYTE⟩).1, .BREAK)
  | _ => (d, answer)

theorem settingAtStart_blind (answer : BreakpointAction) : Blind (settingAtStart answer) := by
  intro c d p
  cases c with
  | onStart base entry =>
    have hset := withPending_setHardwareBreakpoint (d := d.setBreakpoint 5) (p := p)
      ⟨0, 9, .DR1, .EXECUTE, .BYTE⟩
    rw [← withPending_setBreakpoint] at hset
    exact congrArg (fun r => (r.1, BreakpointAction.BREAK)) hset
  | _ => rfl

/-- The hit of slot 1 at 9 is answered with `RESTORE`, and the trap at 10 restores it. -/
theorem loop_agrees_hardware :
    let cb := settingAtStart .RESTORE
    let os : Os .x64 := .ofCode (fun _ => 0x90) [7]
    let evs : List ((Os .x64 → Os .x64) × DebugEvent .x64) :=
      [(id, .CREATE_PROCESS 0), (id, .EXCEPTION ⟨EXCEPTION_SINGLE_STEP, 9, 7, 0, 0⟩),
        (id, .EXCEPTION ⟨EXCEPTION_SINGLE_STEP, 10, 7, 0, 0⟩)]
    (loop cb evs (fresh os ⟨0, false, 0, false, .empty, 0⟩)).trace =
        (loop cb evs (fresh os ⟨3, true, 2, true, .empty, 8⟩)).trace ∧
      (loop cb evs (fresh os ⟨0, false, 0, false, .empty, 0⟩)).os =
        (loop cb evs (fresh os ⟨3, true, 2, true, .empty, 8⟩)).os := by
  intro cb os evs
  refine loop_agrees (settingAtStart_blind _) os ⟨3, true, 2, true, .empty, 8⟩ _ evs ?_
  intro _
  refine ⟨trivial, fun _ _ => ⟨?_, fun _ _ => ⟨?_, fun _ => trivial⟩⟩⟩
  · intro _ _ hstepping
    exact absurd hstepping (by decide +kernel)
  · intro _ _ _
    exact ⟨by decide +kernel, fun _ => ⟨9, 3, .DR1, by decide +kernel⟩⟩

/-- After an answer `SINGLE_STEP` the first trap is reported only if `lastBpType` happens to
hold 2; after an answer `RESTORE` the int3 at 5 is put back only if `restoreHwBP` happens to
be false. -/
theorem loop_depends_on_memory :
    let os : Os .x64 := .ofCode (fun _ => 0x90) [7]
    let zero : Pending .x64 := ⟨0, false, 0, false, .empty, 0⟩
    let evs : List ((Os .x64 → Os .x64) × DebugEvent .x64) :=
      [(id, .CREATE_PROCESS 0), (id, .EXCEPTION ⟨EXCEPTION_BREAKPOINT, 5, 7, 0, 0⟩),
        (id, .EXCEPTION ⟨EXCEPTION_SINGLE_STEP, 6, 7, 0, 0⟩)]
    (Blind (settingAtStart .SINGLE_STEP) ∧
      (loop (settingAtStart .SINGLE_STEP) evs (fresh os zero)).trace ≠
        (loop (settingAtStart .SINGLE_STEP) evs (fresh os { zero with lastBpType := 2 })).trace) ∧
    (Blind (settingAtStart .RESTORE) ∧
      (loop (settingAtStart .RESTORE) evs (fresh os zero)).os.memory.bytes 5 ≠
        (loop (settingAtStart .RESTORE) evs
          (fresh os { zero with restoreHwBP := true })).os.memory.bytes 5) := by
  intro os zero evs
  refine ⟨⟨settingAtStart_blind _, ?_⟩, settingAtStart_blind _, ?_⟩
  · decide +kernel
  · decide +kernel

end RoboDbg
