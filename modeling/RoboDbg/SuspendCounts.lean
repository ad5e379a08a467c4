import RoboDbg.Session

/-!
# Suspend counts and the debugger

The debugger raises and lowers the suspend count of a thread around a change of its context.
If the system refuses the two calls only together, every operation of the debugger is the
same for all suspend counts and leaves them alone, whatever else is refused.
-/

namespace RoboDbg

open Runs Debugger

variable {b : Build}

namespace Os

def counts (os : Os b) (tid : DWORD) : ℕ := (os.thread tid).suspendCount

def withCounts (c : DWORD → ℕ) (os : Os b) : Os b :=
  { os with thread := fun tid => { os.thread tid with suspendCount := c tid } }

/-- A thread that cannot be suspended cannot be resumed either, and the other way round. -/
def Agreeing (os : Os b) : Prop :=
  ∀ tid, os.fails (.suspendThread tid) = os.fails (.resumeThread tid)

variable (os : Os b) (c : DWORD → ℕ) (h : HANDLE)

@[simp] theorem withCounts_counts : os.withCounts os.counts = os := rfl

theorem withCounts_handles : (os.withCounts c).handles = os.handles := rfl

theorem withCounts_fails : (os.withCounts c).fails = os.fails := rfl

theorem withCounts_memory : (os.withCounts c).memory = os.memory := rfl

theorem withCounts_text : (os.withCounts c).text = os.text := rfl

@[simp] theorem getThreadContext_withCounts (flags : ContextFlags) :
    (os.withCounts c).getThreadContext flags h = os.getThreadContext flags h := rfl

theorem withThread_withCounts (c' : DWORD → ℕ) {tid : DWORD} (hother : ∀ u ≠ tid, c' u = c u)
    (obj : ThreadObject b) : (os.withCounts c).withThread tid { obj with suspendCount := c' tid } =
      (os.withThread tid obj).withCounts c' := by
  unfold withThread withCounts
  congr 1
  funext u
  by_cases hu : u = tid
  · subst hu
    simp only [Function.update_self]
  · simp only [Function.update_of_ne hu, hother u hu]

theorem withContext_withCounts (tid : DWORD) (ctx : Context b) :
    (os.withCounts c).withContext tid ctx = (os.withContext tid ctx).withCounts c :=
  withThread_withCounts os c c (fun _ _ => rfl) { os.thread tid with context := ctx }

theorem withCount_withCounts (tid : DWORD) (n : ℕ) : (os.withCounts c).withThread tid
      { (os.withCounts c).thread tid with suspendCount := n } =
    os.withCounts (Function.update c tid n) := by
  have hcount : Function.update c tid n tid = n := Function.update_self tid n c
  have hwritten := withThread_withCounts os c (Function.update c tid n)
    (fun u hu => Function.update_of_ne hu n c) (os.thread tid)
  have hself : os.withThread tid (os.thread tid) = os := by
    unfold withThread
    rw [Function.update_eq_self]
  rw [hcount, hself] at hwritten
  exact hwritten

theorem setThreadContext_withCounts (flags : ContextFlags) (ctx : Context b) :
    (os.withCounts c).setThreadContext flags h ctx =
      (os.setThreadContext flags h ctx).map (withCounts c) := by
  simp only [setThreadContext, withCounts_handles, withCounts_fails]
  cases os.handles.lookup h with
  | none => rfl
  | some tid =>
    cases hrefused : os.fails (.setThreadContext tid) with
    | true =>
      simp only [hrefused, if_true]
      rfl
    | false =>
      simp only [hrefused, Bool.false_eq_true, if_false]
      exact congrArg some (withContext_withCounts os c tid _)

theorem setThreadContext_same {os os' : Os b} {flags : ContextFlags} {h : HANDLE}
    {ctx : Context b} (hset : os.setThreadContext flags h ctx = some os') :
    os'.handles = os.handles ∧ os'.fails = os.fails := by
  obtain ⟨tid, -, -, rfl⟩ := setThreadContext_eq_some.mp hset
  exact ⟨rfl, rfl⟩

theorem suspendThread_withCounts {os : Os b} {h : HANDLE} {tid : DWORD}
    (hlookup : os.handles.lookup h = some tid) (hgranted : os.fails (.suspendThread tid) = false)
    (c : DWORD → ℕ) : (os.withCounts c).suspendThread h =
      some (os.withCounts (Function.update c tid (c tid + 1))) :=
  suspendThread_eq_some.mpr ⟨tid, hlookup, hgranted, (withCount_withCounts os c tid _).symm⟩

theorem resumeThread_withCounts {os : Os b} {h : HANDLE} {tid : DWORD}
    (hlookup : os.handles.lookup h = some tid) (hgranted : os.fails (.resumeThread tid) = false)
    (c : DWORD → ℕ) : (os.withCounts c).resumeThread h =
      some (os.withCounts (Function.update c tid (c tid - 1))) :=
  resumeThread_eq_some.mpr ⟨tid, hlookup, hgranted, (withCount_withCounts os c tid _).symm⟩

/-- A suspension and a resumption are refused, or the resumption brings the counts back. -/
theorem bracket {os : Os b} (hagree : os.Agreeing) (h : HANDLE) :
    ((∀ c, (os.withCounts c).suspendThread h = none) ∧
        ∀ os' : Os b, os'.handles = os.handles → os'.fails = os.fails →
          os'.resumeThread h = none) ∨
      ∀ c, ∃ c', (os.withCounts c).suspendThread h = some (os.withCounts c') ∧
        ∀ os' : Os b, os'.handles = os.handles → os'.fails = os.fails →
          (os'.withCounts c').resumeThread h = some (os'.withCounts c) := by
  cases hlookup : os.handles.lookup h with
  | none =>
    refine Or.inl ⟨fun c => ?_, fun os' hhandles _ => ?_⟩
    · simp only [suspendThread, withCounts_handles, hlookup]
    · unfold resumeThread
      rw [hhandles, hlookup]
  | some tid =>
    cases hrefused : os.fails (.suspendThread tid) with
    | true =>
      have hresume : os.fails (.resumeThread tid) = true := (hagree tid).symm.trans hrefused
      refine Or.inl ⟨fun c => ?_, fun os' hhandles hfails => ?_⟩
      · simp only [suspendThread, withCounts_handles, withCounts_fails, hlookup, hrefused, if_true]
      · simp only [resumeThread, hhandles, hlookup, hfails, hresume, if_true]
    | false =>
      have hresume : os.fails (.resumeThread tid) = false := (hagree tid).symm.trans hrefused
      refine Or.inr fun c =>
        ⟨_, suspendThread_withCounts hlookup hrefused c, fun os' hhandles hfails => ?_⟩
      rw [resumeThread_withCounts (hhandles ▸ hlookup) (hfails ▸ hresume)]
      congr 2
      rw [Function.update_self, Nat.add_sub_cancel, Function.update_idem, Function.update_eq_self]

def steppedBack (h : HANDLE) (os : Os b) : Os b :=
  match os.getThreadContext .CONTROL h with
  | none => os
  | some ctx => (os.setThreadContext .CONTROL h ctx.stepBack).getD os

theorem steppedBack_withCounts (c : DWORD → ℕ) (os : Os b) (h : HANDLE) :
    (os.withCounts c).steppedBack h = (os.steppedBack h).withCounts c := by
  unfold steppedBack
  rw [getThreadContext_withCounts]
  cases os.getThreadContext .CONTROL h with
  | none => rfl
  | some ctx =>
    simp only [setThreadContext_withCounts]
    cases os.setThreadContext .CONTROL h ctx.stepBack with
    | none => rfl
    | some os' => rfl

theorem steppedBack_same (os : Os b) (h : HANDLE) :
    (os.steppedBack h).handles = os.handles ∧ (os.steppedBack h).fails = os.fails := by
  unfold steppedBack
  cases os.getThreadContext .CONTROL h with
  | none => exact ⟨rfl, rfl⟩
  | some ctx =>
    dsimp only
    cases hset : os.setThreadContext .CONTROL h ctx.stepBack with
    | none => exact ⟨rfl, rfl⟩
    | some os' => exact setThreadContext_same hset

end Os

/-! ## Operations that neither see nor change the counts -/

namespace Debugger

def withCounts (c : DWORD → ℕ) (d : Debugger b) : Debugger b := { d with os := d.os.withCounts c }

/-- From `d` on the operation is the same for all suspend counts and leaves them alone. -/
structure Uncounted (f : Debugger b → Debugger b) (d : Debugger b) : Prop where
  commute : ∀ c, f (d.withCounts c) = (f d).withCounts c
  fails : (f d).os.fails = d.os.fails

namespace Uncounted

variable {f g : Debugger b → Debugger b} {d : Debugger b}

theorem counts (h : Uncounted f d) : (f d).os.counts = d.os.counts := by
  have hsame : f d = (f d).withCounts d.os.counts := h.commute d.os.counts
  calc (f d).os.counts
      = ((f d).withCounts d.os.counts).os.counts :=
        congrArg (fun d' : Debugger b => d'.os.counts) hsame
    _ = d.os.counts := rfl

theorem agreeing (h : Uncounted f d) (hagree : d.os.Agreeing) : (f d).os.Agreeing := by
  intro tid
  rw [h.fails]
  exact hagree tid

theorem comp (hg : Uncounted g (f d)) (hf : Uncounted f d) : Uncounted (fun d => g (f d)) d := by
  refine ⟨fun c => ?_, hg.fails.trans hf.fails⟩
  rw [hf.commute, hg.commute]

/-- What an operation does with all suspend counts, it does with those of `d`. -/
theorem commute_of_eq {d' : Debugger b} (h : ∀ c, f (d.withCounts c) = d'.withCounts c)
    (c : DWORD → ℕ) : f (d.withCounts c) = (f d).withCounts c := by
  have hself : f d = d'.withCounts d.os.counts := h d.os.counts
  rw [h c, hself]
  rfl

theorem of_eq (h : Uncounted g d) (heq : ∀ c, f (d.withCounts c) = g (d.withCounts c)) :
    Uncounted f d := by
  have hself : f d = g d := heq d.os.counts
  refine ⟨fun c => ?_, ?_⟩
  · rw [heq, hself, h.commute]
  · rw [hself, h.fails]

theorem of_hardware (hcommute : ∀ c, f (d.withCounts c) = (f d).withCounts c)
    (hframe : HwFrame d (f d)) : Uncounted f d := by
  refine ⟨hcommute, ?_⟩
  rw [hframe.rest]

end Uncounted

variable {d : Debugger b}

theorem withCounts_ite {c : DWORD → ℕ} {p : Prop} [Decidable p] {x y x' y' : Debugger b}
    (hx : x' = x.withCounts c) (hy : y' = y.withCounts c) :
    (if p then x' else y') = (if p then x else y).withCounts c := by
  split_ifs
  · exact hx
  · exact hy

theorem setBreakpoint_uncounted (a : LPVOID b) : Uncounted (setBreakpoint a) d :=
  ⟨fun _ => withCounts_ite rfl rfl, (setBreakpoint_frame a d).fails⟩

theorem restoreBreakpoint_uncounted (a : LPVOID b) : Uncounted (restoreBreakpoint a) d := by
  refine ⟨fun c => ?_, (restoreBreakpoint_frame a d).fails⟩
  simp only [restoreBreakpoint, withCounts, Os.withCounts_memory]
  cases d.breakpoints[a]? with
  | none => rfl
  | some original =>
    cases d.os.memory.readByte a with
    | none => rfl
    | some cur => exact withCounts_ite rfl rfl

theorem enableSingleStep_uncounted (hThread : HANDLE) : Uncounted (enableSingleStep hThread) d := by
  refine ⟨fun c => ?_, (enableSingleStep_frame hThread d).fails⟩
  simp only [enableSingleStep, withCounts, Os.getThreadContext_withCounts,
    Os.setThreadContext_withCounts]
  cases d.os.getThreadContext .CONTROL hThread with
  | none => rfl
  | some ctx =>
    dsimp only
    cases d.os.setThreadContext .CONTROL hThread ctx.withTrapFlag with
    | none => rfl
    | some os => rfl

theorem decrementIP_uncounted (hagree : d.os.Agreeing) (hThread : HANDLE) :
    Uncounted (decrementIP hThread) d := by
  obtain ⟨hhandles, hfails⟩ := d.os.steppedBack_same hThread
  refine ⟨Uncounted.commute_of_eq (show ∀ c, decrementIP hThread (d.withCounts c) =
    withCounts c { d with os := d.os.steppedBack hThread } from fun c => ?_),
    (decrementIP_frame hThread d).fails⟩
  let os₁ := ((d.os.withCounts c).suspendThread hThread).getD (d.os.withCounts c)
  let os₂ := os₁.steppedBack hThread
  change { d with os := (os₂.resumeThread hThread).getD os₂ } = _
  rcases Os.bracket hagree hThread with ⟨hsuspend, hresume⟩ | hbracket
  · -- without the suspension there must be no resumption either
    have hback : os₂ = (d.os.steppedBack hThread).withCounts c := by
      simp only [os₂, os₁, hsuspend c, Option.getD_none, Os.steppedBack_withCounts]
    have hnone : os₂.resumeThread hThread = none := by
      rw [hback]
      exact hresume _ hhandles hfails
    rw [hnone, hback]
    rfl
  · obtain ⟨c', hsuspend, hresume⟩ := hbracket c
    have hback : os₂ = (d.os.steppedBack hThread).withCounts c' := by
      simp only [os₂, os₁, hsuspend, Option.getD_some, Os.steppedBack_withCounts]
    rw [hback, hresume _ hhandles hfails]
    rfl

theorem setHardwareBreakpointOnThread_uncounted (hagree : d.os.Agreeing) (bp : HwBp b) :
    Uncounted (fun d => (d.setHardwareBreakpointOnThread bp).1) d := by
  refine .of_hardware ?_ (setHardwareBreakpointOnThread_frame bp d)
  unfold setHardwareBreakpointOnThread
  split_ifs
  · exact fun _ => rfl
  simp only [withCounts, Os.getThreadContext_withCounts]
  cases d.os.getThreadContext .DEBUG_REGISTERS bp.hThread with
  | none => exact fun _ => rfl
  | some ctx =>
    dsimp only
    cases ctx.assign bp with
    | none => exact fun _ => rfl
    | some ctx =>
      dsimp only
      rcases Os.bracket hagree bp.hThread with ⟨hsuspend, -⟩ | hbracket
      · intro c
        have hself : d.os.suspendThread bp.hThread = none := hsuspend d.os.counts
        rw [hsuspend c, hself]
      · intro c
        obtain ⟨c₁, hsuspend₁, hresume₁⟩ := hbracket c
        obtain ⟨c₂, hsuspend₂, hresume₂⟩ := hbracket d.os.counts
        rw [Os.withCounts_counts] at hsuspend₂
        simp only [hsuspend₁, hsuspend₂, Os.setThreadContext_withCounts]
        cases hset : d.os.setThreadContext .DEBUG_REGISTERS bp.hThread ctx with
        | none =>
          simp only [Option.map_none, hresume₁ d.os rfl rfl, hresume₂ d.os rfl rfl]
          rfl
        | some os =>
          obtain ⟨hhandles, hfails⟩ := Os.setThreadContext_same hset
          simp only [Option.map_some, hresume₁ os hhandles hfails, hresume₂ os hhandles hfails]
          rfl

theorem untrack_withCounts (hThread : HANDLE) (reg : DRReg) (a : LPVOID b) (c : DWORD → ℕ) :
    (d.withCounts c).untrack hThread reg a = (d.untrack hThread reg a).withCounts c := by
  refine withCounts_ite rfl ?_
  simp only [withCounts]
  cases d.hwBreakpoints[a]? with
  | none => rfl
  | some stored => exact withCounts_ite rfl rfl

theorem clearHardwareBreakpointOnThread_uncounted (hagree : d.os.Agreeing) (hThread : HANDLE)
    (reg : DRReg) :
    Uncounted (fun d => (d.clearHardwareBreakpointOnThread hThread reg).1) d := by
  refine .of_hardware ?_ (clearHardwareBreakpointOnThread_frame hThread reg d)
  unfold clearHardwareBreakpointOnThread
  split_ifs
  · exact fun _ => rfl
  simp only [withCounts, Os.getThreadContext_withCounts]
  cases d.os.getThreadContext .DEBUG_REGISTERS hThread with
  | none => exact fun _ => rfl
  | some ctx =>
    dsimp only
    rcases Os.bracket hagree hThread with ⟨hsuspend, -⟩ | hbracket
    · intro c
      have hself : d.os.suspendThread hThread = none := hsuspend d.os.counts
      rw [hsuspend c, hself]
    · intro c
      obtain ⟨c₁, hsuspend₁, hresume₁⟩ := hbracket c
      obtain ⟨c₂, hsuspend₂, hresume₂⟩ := hbracket d.os.counts
      rw [Os.withCounts_counts] at hsuspend₂
      simp only [hsuspend₁, hsuspend₂, Os.setThreadContext_withCounts]
      cases hset : d.os.setThreadContext .DEBUG_REGISTERS hThread (ctx.release reg) with
      | none =>
        simp only [Option.map_none, Option.getD_none, hresume₁ d.os rfl rfl,
          hresume₂ d.os rfl rfl, Option.getD_some]
        exact untrack_withCounts (d := d) hThread reg _ c
      | some os =>
        obtain ⟨hhandles, hfails⟩ := Os.setThreadContext_same hset
        simp only [Option.map_some, Option.getD_some, hresume₁ os hhandles hfails,
          hresume₂ os hhandles hfails]
        exact untrack_withCounts (d := { d with os := os.withCounts d.os.counts }) hThread reg _ c

theorem openThreads_uncounted (tids : List DWORD) : Uncounted (openThreads tids) d := by
  refine .of_hardware (fun c => ?_) (openThreads_frame tids d)
  induction tids generalizing d with
  | nil => rfl
  | cons tid tids ih =>
    rw [openThreads_cons, openThreads_cons]
    change openThreads tids (if d.os.fails (.openThread tid) then d.withCounts c
      else (d.listing tid).withCounts c) = _
    split_ifs
    · exact ih
    · exact ih

theorem actualizeThreadList_uncounted : Uncounted actualizeThreadList d :=
  .of_hardware (fun c => withCounts_ite rfl (withCounts_ite rfl
    ((openThreads_uncounted (d := { d with threads := [] }) _).commute c)))
    (actualizeThreadList_frame d)

theorem forThreads_uncounted {op : Thread b → Debugger b → Debugger b × Bool}
    (hop : ∀ thread d, d.os.Agreeing → Uncounted (fun d => (op thread d).1) d)
    (hagree : d.os.Agreeing) (threads : List (Thread b)) :
    Uncounted (fun d => (forThreads op threads d).1) d := by
  induction threads generalizing d with
  | nil => exact ⟨fun _ => rfl, rfl⟩
  | cons thread threads ih =>
    have hfirst := hop thread d hagree
    exact (ih (hfirst.agreeing hagree)).comp hfirst

theorem forListed_uncounted {op : Thread b → Debugger b → Debugger b × Bool}
    (hop : ∀ thread d, d.os.Agreeing → Uncounted (fun d => (op thread d).1) d)
    (hagree : d.os.Agreeing) : Uncounted (fun d => (forThreads op d.threads d).1) d := by
  obtain ⟨hcommute, hfails⟩ := forThreads_uncounted hop hagree d.threads
  exact ⟨hcommute, hfails⟩

theorem setHardwareBreakpoint_uncounted (hagree : d.os.Agreeing) (bp : HwBp b) :
    Uncounted (fun d => (d.setHardwareBreakpoint bp).1) d := by
  have hrefresh := actualizeThreadList_uncounted (d := d)
  unfold setHardwareBreakpoint
  by_cases hreg : bp.reg.toInt < 0 ∨ bp.reg.toInt > 3
  · simp only [if_pos hreg]
    exact hrefresh
  · simp only [if_neg hreg]
    have hagain := hrefresh.agreeing hagree
    have hrefresh' := actualizeThreadList_uncounted (d := d.actualizeThreadList)
    have hset := forListed_uncounted (fun thread _ hagree =>
      setHardwareBreakpointOnThread_uncounted hagree { bp with hThread := thread.hThread })
      (hrefresh'.agreeing hagain)
    exact (hset.comp hrefresh').comp hrefresh

theorem clearHardwareBreakpoint_uncounted (hagree : d.os.Agreeing) (reg : DRReg) :
    Uncounted (fun d => (d.clearHardwareBreakpoint reg).1) d := by
  have hrefresh := actualizeThreadList_uncounted (d := d)
  have hclear := forListed_uncounted (fun (thread : Thread b) _ hagree =>
    clearHardwareBreakpointOnThread_uncounted hagree thread.hThread reg)
    (hrefresh.agreeing hagree)
  exact hclear.comp hrefresh

theorem hwCall_uncounted (hagree : d.os.Agreeing) (op : HwCall b) :
    Uncounted (fun d => op.run d) d := by
  cases op with
  | actualizeThreadList => exact actualizeThreadList_uncounted
  | hardware op =>
    cases op with
    | setHardwareBreakpoint bp => exact setHardwareBreakpoint_uncounted hagree bp
    | setHardwareBreakpointOnThread bp => exact setHardwareBreakpointOnThread_uncounted hagree bp
    | clearHardwareBreakpoint reg => exact clearHardwareBreakpoint_uncounted hagree reg
    | clearHardwareBreakpointOnThread hThread reg =>
      exact clearHardwareBreakpointOnThread_uncounted hagree hThread reg

theorem operation_uncounted (hagree : d.os.Agreeing) (op : Operation b) :
    Uncounted (fun d => op.run d) d := by
  cases op with
  | setBreakpoint a => exact setBreakpoint_uncounted a
  | restoreBreakpoint a => exact restoreBreakpoint_uncounted a
  | verifyBreakpoints => exact ⟨fun _ => rfl, rfl⟩
  | hardware op => exact hwCall_uncounted hagree op

/-! ## Events -/

theorem assign_uncounted {f : Debugger b → Debugger b}
    (hcommute : ∀ c, f (d.withCounts c) = (f d).withCounts c) (hos : (f d).os = d.os) :
    Uncounted f d := by
  refine ⟨hcommute, ?_⟩
  rw [hos]

theorem restorePending_uncounted (hagree : d.os.Agreeing) : Uncounted restorePending d := by
  cases hneed : d.needToRestoreBreakpoint with
  | false =>
    have hsame : d.restorePending = d := restorePending_of_none hneed
    refine assign_uncounted (fun c => ?_) (congrArg Debugger.os hsame)
    rw [restorePending_of_none (d := d.withCounts c) hneed, hsame]
  | true =>
    cases hhw : d.restoreHwBP with
    | false =>
      have hset := setBreakpoint_uncounted (d := d) d.bpAddrToRestore
      have hrestored := restorePending_of_software hneed hhw
      refine ⟨fun c => ?_, ?_⟩
      · rw [restorePending_of_software (d := d.withCounts c) hneed hhw, hrestored]
        change { setBreakpoint d.bpAddrToRestore (d.withCounts c) with
          needToRestoreBreakpoint := false } = _
        rw [hset.commute]
        rfl
      · rw [hrestored]
        exact hset.fails
    | true =>
      have hset := setHardwareBreakpoint_uncounted hagree d.hwBPToRestore
      have hrestored := restorePending_of_hardware hneed hhw
      have hcommute := hset.commute
      refine ⟨fun c => ?_, ?_⟩
      · rw [restorePending_of_hardware (d := d.withCounts c) hneed hhw, hrestored]
        change { (setHardwareBreakpoint d.hwBPToRestore (d.withCounts c)).1 with
          restoreHwBP := false
          needToRestoreBreakpoint := false } = _
        rw [hcommute]
        rfl
      · rw [hrestored]
        exact hset.fails

def toldToStep (hThread : HANDLE) (d : Debugger b) : Debugger b :=
  { d.enableSingleStep hThread with stepping := true }

theorem toldToStep_uncounted (hThread : HANDLE) : Uncounted (toldToStep hThread) d := by
  have hset : Uncounted (fun d : Debugger b => { d with stepping := true })
      (d.enableSingleStep hThread) := assign_uncounted (fun _ => rfl) rfl
  exact hset.comp (enableSingleStep_uncounted hThread)

theorem answerBreakpoint_uncounted (a : LPVOID b) (hThread : HANDLE) (bpType : BreakpointAction) :
    Uncounted (answerBreakpoint a hThread bpType) d := by
  cases bpType with
  | BREAK => exact assign_uncounted (fun _ => rfl) rfl
  | RESTORE =>
    have hrecord : Uncounted (fun d : Debugger b => { d with
        bpAddrToRestore := a
        lastBpType := BreakpointAction.RESTORE.toInt
        needToRestoreBreakpoint := true }) (d.toldToStep hThread) :=
      assign_uncounted (fun _ => rfl) rfl
    exact hrecord.comp (toldToStep_uncounted hThread)
  | SINGLE_STEP => exact toldToStep_uncounted hThread

theorem answerStep_uncounted (a : LPVOID b) (hThread : HANDLE) (bpType : BreakpointAction) :
    Uncounted (answerStep a hThread bpType) d := by
  have hrecord : Uncounted (fun d : Debugger b => { d with
      bpAddrToRestore := a
      needToRestoreBreakpoint := true
      lastBpType := bpType.toInt }) d := assign_uncounted (fun _ => rfl) rfl
  cases bpType with
  | BREAK => exact assign_uncounted (fun _ => rfl) rfl
  | RESTORE => exact (toldToStep_uncounted hThread).comp hrecord
  | SINGLE_STEP => exact (toldToStep_uncounted hThread).comp hrecord

-- reading the debug registers does not need the counts
theorem getBreakpointByReg_withCounts (reg : DRReg) (c : DWORD → ℕ) :
    (d.withCounts c).getBreakpointByReg reg = d.getBreakpointByReg reg := by
  change getBreakpointByRegIn (d.os.withCounts c) reg d.threads = getBreakpointByRegIn d.os reg _
  induction d.threads with
  | nil => rfl
  | cons thread threads ih => simp only [getBreakpointByRegIn, Os.getThreadContext_withCounts, ih]

theorem isHardwareBreakpointAt_withCounts (a : LPVOID b) (c : DWORD → ℕ) :
    (d.withCounts c).isHardwareBreakpointAt a = d.isHardwareBreakpointAt a := by
  change isHardwareBreakpointIn (d.os.withCounts c) a d.threads = isHardwareBreakpointIn d.os a _
  induction d.threads with
  | nil => rfl
  | cons thread threads ih => simp only [isHardwareBreakpointIn, Os.getThreadContext_withCounts, ih]

theorem answerHardware_uncounted (hagree : d.os.Agreeing) (a : LPVOID b) (hThread : HANDLE)
    (reg : DRReg) (bpType : BreakpointAction) :
    Uncounted (answerHardware a hThread reg bpType) d := by
  cases bpType with
  | BREAK => exact clearHardwareBreakpoint_uncounted hagree reg
  | SINGLE_STEP =>
    have hstep := toldToStep_uncounted (d := d) hThread
    exact (clearHardwareBreakpoint_uncounted (hstep.agreeing hagree) reg).comp hstep
  | RESTORE =>
    have hrecord : Uncounted (afterHardware a hThread reg) d := by
      refine assign_uncounted (fun c => ?_) rfl
      simp only [afterHardware, getBreakpointByReg_withCounts]
      rfl
    have hclear := clearHardwareBreakpointOnThread_uncounted (hrecord.agreeing hagree) hThread reg
    exact ((toldToStep_uncounted hThread).comp hclear).comp hrecord

/-- The first half of an event; the callback that it leads to is the same as well. -/
structure UncountedArrival (f : Debugger b → Debugger b × Option (Call b)) (d : Debugger b) :
    Prop where
  state : Uncounted (fun d => (f d).1) d
  call : ∀ c, (f (d.withCounts c)).2 = (f d).2

theorem UncountedArrival.of_eq {f : Debugger b → Debugger b × Option (Call b)}
    {g : Debugger b → Debugger b} (h : Uncounted g d) (r : Option (Call b))
    (heq : ∀ c, f (d.withCounts c) = (g (d.withCounts c), r)) : UncountedArrival f d := by
  refine ⟨h.of_eq (fun c => congrArg Prod.fst (heq c)), fun c => ?_⟩
  have hself : f d = (g d, r) := heq d.os.counts
  rw [heq, hself]

theorem closing_uncounted (hThread : HANDLE) : Uncounted (closing hThread) d := ⟨fun _ => rfl, rfl⟩

theorem opened_uncounted (tid : DWORD) : Uncounted (opened tid) d := ⟨fun _ => rfl, rfl⟩

theorem id_uncounted : Uncounted id d := ⟨fun _ => rfl, rfl⟩

theorem arriveException_uncounted (hagree : d.os.Agreeing) (e : ExceptionEvent b)
    (hThread : HANDLE) :
    UncountedArrival (arriveException e hThread) d := by
  by_cases hbp : e.ExceptionCode = EXCEPTION_BREAKPOINT
  · cases hx : d.breakpoints[e.ExceptionAddress]? with
    | none =>
      refine .of_eq (closing_uncounted hThread) none fun c => ?_
      have hx' : (d.withCounts c).breakpoints[e.ExceptionAddress]? = none := hx
      simp only [arriveException, if_pos hbp, hx']
    | some x =>
      have hrestore := restoreBreakpoint_uncounted (d := d) e.ExceptionAddress
      have hback := decrementIP_uncounted (hrestore.agreeing hagree) hThread
      refine .of_eq (hback.comp hrestore) (some (.onBreakpoint e.ExceptionAddress hThread))
        fun c => ?_
      have hx' : (d.withCounts c).breakpoints[e.ExceptionAddress]? = some x := hx
      simp only [arriveException, if_pos hbp, hx']
  by_cases hstep : e.ExceptionCode = EXCEPTION_SINGLE_STEP ∧ d.stepping = true
  · have hpending := restorePending_uncounted hagree
    have hlast : ∀ c,
        (d.withCounts c).restorePending.lastBpType = d.restorePending.lastBpType := by
      intro c
      rw [hpending.commute]
      rfl
    by_cases hsingle : d.restorePending.lastBpType = BreakpointAction.SINGLE_STEP.toInt
    · refine .of_eq hpending (some (.onBreakpoint e.ExceptionAddress hThread)) fun c => ?_
      have hstep' : e.ExceptionCode = EXCEPTION_SINGLE_STEP ∧ (d.withCounts c).stepping = true :=
        hstep
      simp only [arriveException, if_neg hbp, if_pos hstep', hlast, if_pos hsingle]
    · have hleave : Uncounted (fun d : Debugger b => closing hThread { d with stepping := false })
          d.restorePending := ⟨fun _ => rfl, rfl⟩
      refine .of_eq (hleave.comp hpending) none fun c => ?_
      have hstep' : e.ExceptionCode = EXCEPTION_SINGLE_STEP ∧ (d.withCounts c).stepping = true :=
        hstep
      simp only [arriveException, if_neg hbp, if_pos hstep', hlast, if_neg hsingle]
  by_cases hss : e.ExceptionCode = EXCEPTION_SINGLE_STEP
  · let c₀ : Call b := if d.isHardwareBreakpointAt e.ExceptionAddress ≠ .NOP
      then .onHardwareBreakpoint e.ExceptionAddress hThread
        (d.isHardwareBreakpointAt e.ExceptionAddress)
      else .onUnknownException e.ExceptionAddress e.ExceptionCode
    refine .of_eq id_uncounted (some c₀) fun c => ?_
    have hstep' : ¬ (e.ExceptionCode = EXCEPTION_SINGLE_STEP ∧
        (d.withCounts c).stepping = true) := hstep
    simp only [arriveException, if_neg hbp, if_neg hstep', if_pos hss,
      isHardwareBreakpointAt_withCounts, c₀]
    split_ifs
    · rfl
    · rfl
  · have hstep' : ∀ c, ¬ (e.ExceptionCode = EXCEPTION_SINGLE_STEP ∧
        (d.withCounts c).stepping = true) := fun _ hc => hss hc.1
    refine .of_eq id_uncounted (d.arriveException e hThread).2 fun c => ?_
    simp only [arriveException, if_neg hbp, if_neg (hstep' c), if_neg hstep, if_neg hss]
    split_ifs
    · rfl
    · rfl

theorem getDllName_withCounts (os : Os b) (c : DWORD → ℕ) (a : LPVOID b) (isUnicode : WORD) :
    Util.getDllName (os.withCounts c) a isUnicode = Util.getDllName os a isUnicode := by
  unfold Util.getDllName
  rw [Os.withCounts_memory, Os.withCounts_text]

theorem getDebugString_withCounts (os : Os b) (c : DWORD → ℕ) (a : LPVOID b)
    (isUnicode n : WORD) : Util.getDebugString (os.withCounts c) a isUnicode n =
      Util.getDebugString os a isUnicode n := by
  unfold Util.getDebugString
  rw [Os.withCounts_memory, Os.withCounts_text]

theorem arrive_uncounted (hagree : d.os.Agreeing) (ev : DebugEvent b) :
    UncountedArrival (arrive ev) d := by
  cases ev with
  | EXCEPTION e =>
    cases ho : d.os.fails (.openThread e.dwThreadId) with
    | true =>
      refine .of_eq id_uncounted none fun c => ?_
      exact arrive_of_refused (d := d.withCounts c) ho
    | false =>
      have hopened := opened_uncounted (d := d) e.dwThreadId
      have harrive := arriveException_uncounted (hopened.agreeing hagree) e d.os.handles.next
      refine .of_eq (harrive.state.comp hopened)
        ((d.opened e.dwThreadId).arriveException e d.os.handles.next).2 fun c => ?_
      rw [arrive_of_opened (d := d.withCounts c) ho]
      exact congrArg (Prod.mk _) (harrive.call c)
  | CREATE_THREAD tid base start =>
    cases ho : d.os.fails (.openThread tid) with
    | true =>
      refine .of_eq id_uncounted none fun c => ?_
      have ho' : (d.withCounts c).os.fails (.openThread tid) = true := ho
      simp only [arrive, Os.openThread, ho', if_true]
      rfl
    | false =>
      refine .of_eq (opened_uncounted tid)
        (some (.onThreadCreate d.os.handles.next tid base start)) fun c => ?_
      have ho' : (d.withCounts c).os.fails (.openThread tid) = false := ho
      simp only [arrive, Os.openThread, ho', Bool.false_eq_true, if_false]
      rfl
  | LOAD_DLL base lpImageName fUnicode =>
    refine .of_eq id_uncounted (d.arrive (.LOAD_DLL base lpImageName fUnicode)).2 fun c => ?_
    exact congrArg (fun name => (d.withCounts c, some (Call.onDLLLoad base name _)))
      (getDllName_withCounts d.os c lpImageName fUnicode)
  | UNLOAD_DLL base lpImageName fUnicode =>
    refine .of_eq id_uncounted (d.arrive (.UNLOAD_DLL base lpImageName fUnicode)).2 fun c => ?_
    exact congrArg (fun name => (d.withCounts c, some (Call.onDLLUnload base name)))
      (getDllName_withCounts d.os c lpImageName fUnicode)
  | OUTPUT_DEBUG_STRING lpDebugStringData fUnicode n =>
    refine .of_eq id_uncounted (d.arrive (.OUTPUT_DEBUG_STRING lpDebugStringData fUnicode n)).2
      fun c => ?_
    exact congrArg (fun msg => (d.withCounts c, some (Call.onDebugString msg)))
      (getDebugString_withCounts d.os c lpDebugStringData fUnicode n)
  | _ => exact ⟨⟨fun _ => rfl, rfl⟩, fun _ => rfl⟩

theorem complete_uncounted (hagree : d.os.Agreeing) (ev : DebugEvent b) (hThread : HANDLE)
    (c : Call b) (bpType : BreakpointAction) : Uncounted (complete ev hThread c bpType) d := by
  cases ev with
  | EXCEPTION e =>
    have hclosing (d : Debugger b) : Uncounted (closing hThread) d := closing_uncounted hThread
    cases c with
    | onBreakpoint a h =>
      by_cases hbp : e.ExceptionCode = EXCEPTION_BREAKPOINT
      · have hanswer := answerBreakpoint_uncounted (d := d) a h bpType
        refine ((hclosing _).comp hanswer).of_eq fun c => ?_
        simp only [complete, completeException, if_pos hbp]
      · have hanswer := answerStep_uncounted (d := d) a h bpType
        refine ((hclosing _).comp hanswer).of_eq fun c => ?_
        simp only [complete, completeException, if_neg hbp]
    | onHardwareBreakpoint a h reg =>
      exact (hclosing _).comp (answerHardware_uncounted hagree a h reg bpType)
    | _ => exact hclosing d
  | _ => exact ⟨fun _ => rfl, rfl⟩

end Debugger

end RoboDbg
