import Mathlib.Data.List.Perm.Basic
import RoboDbg.ThreadList

/-!
# Handles of the thread list

A refresh empties `threads` and opens every thread of the process again; the handles of
the list before are dropped and not closed. The loop closes only the handle that it has
opened for an exception, which is never listed. So a handle that has been listed stays
open, and what a run has opened is listed or has been dropped.
-/

namespace RoboDbg

open Debugger

variable {b : Build}

namespace HandleTable

def Distinct (T : HandleTable) : Prop := (T.entries.map Prod.fst).Nodup

theorem Distinct.insert {T : HandleTable} (h : T.Distinct) (tid : DWORD) :
    (T.insert tid).Distinct := by
  refine List.nodup_cons.mpr ⟨fun hmem => ?_, h⟩
  obtain ⟨e, he, heq⟩ := List.mem_map.mp hmem
  exact T.alloc_fresh _ e he heq

theorem lookup_of_nodup {es : List (HANDLE × DWORD)} (hnodup : (es.map Prod.fst).Nodup)
    {e : HANDLE × DWORD} (he : e ∈ es) : es.lookup e.1 = some e.2 := by
  induction es with
  | nil => cases he
  | cons x es ih =>
    obtain ⟨hnot, hnodup⟩ := List.nodup_cons.mp hnodup
    rw [List.lookup_cons]
    rcases List.mem_cons.mp he with rfl | he
    · simp
    · have hne : ¬ e.1 = x.1 := fun hc => hnot (hc ▸ List.mem_map_of_mem he)
      rw [beq_false_of_ne hne]
      exact ih hnodup he

theorem Distinct.lookup {T : HandleTable} (h : T.Distinct) {e : HANDLE × DWORD}
    (he : e ∈ T.entries) : T.lookup e.1 = some e.2 :=
  lookup_of_nodup h he

theorem close_entries {T T' : HandleTable} (h : T'.Distinct) {opened : List (HANDLE × DWORD)}
    {tid : DWORD} (he : T'.entries = opened ++ (T.next, tid) :: T.entries) :
    (T'.close T.next).entries = opened ++ T.entries := by
  unfold Distinct at h
  rw [he, List.map_append, List.map_cons] at h
  obtain ⟨-, htail, hdisj⟩ := List.nodup_append.mp h
  have hnot := (List.nodup_cons.mp htail).1
  have hopened : opened.filter (fun e => e.1 ≠ T.next) = opened :=
    List.filter_eq_self.mpr (fun e hmem => decide_eq_true
      (hdisj e.1 (List.mem_map_of_mem hmem) T.next List.mem_cons_self))
  have hold : T.entries.filter (fun e => e.1 ≠ T.next) = T.entries :=
    List.filter_eq_self.mpr (fun e hmem => decide_eq_true (T.alloc_fresh _ e hmem))
  simp only [close, he, List.filter_append, List.filter_cons_of_neg, ne_eq, not_true_eq_false,
    decide_false, Bool.false_eq_true, not_false_eq_true]
  rw [hopened, hold]

theorem Distinct.close {T : HandleTable} (h : T.Distinct) (x : HANDLE) : (T.close x).Distinct :=
  h.sublist (List.filter_sublist.map _)

end HandleTable

namespace Os

variable {os os' : Os b} {h : HANDLE}

theorem suspendThread_handles (hs : os.suspendThread h = some os') : os'.handles = os.handles := by
  obtain ⟨tid, -, -, rfl⟩ := suspendThread_eq_some.mp hs
  rfl

theorem resumeThread_handles (hs : os.resumeThread h = some os') : os'.handles = os.handles := by
  obtain ⟨tid, -, -, rfl⟩ := resumeThread_eq_some.mp hs
  rfl

theorem setThreadContext_handles {flags : ContextFlags} {ctx : Context b}
    (hs : os.setThreadContext flags h ctx = some os') : os'.handles = os.handles := by
  obtain ⟨tid, -, -, rfl⟩ := setThreadContext_eq_some.mp hs
  rfl

theorem getD_handles {o : Option (Os b)} (ho : ∀ os', o = some os' → os'.handles = os.handles) :
    (o.getD os).handles = os.handles := by
  cases o with
  | none => rfl
  | some os' => exact ho os' rfl

end Os

namespace Debugger

/-- The handles of the list, each with the thread it was opened for. -/
def listedHandles (d : Debugger b) : List (HANDLE × DWORD) :=
  d.threads.map (fun thread => (thread.hThread, thread.threadId))

/-- A stretch of a run that closes nothing: what it opens, and what was listed before,
is listed afterwards or was dropped. -/
structure Books (d : Debugger b) (dropped : List (HANDLE × DWORD)) (d' : Debugger b) : Prop where
  entries : ∃ opened, d'.os.handles.entries = opened ++ d.os.handles.entries ∧
    (opened ++ d.listedHandles).Perm (dropped ++ d'.listedHandles)
  distinct : d.os.handles.Distinct → d'.os.handles.Distinct

namespace Books

variable {d d' d'' : Debugger b} {dropped dropped' : List (HANDLE × DWORD)}

theorem keep (hhandles : d'.os.handles = d.os.handles) (hthreads : d'.threads = d.threads) :
    Books d [] d' := by
  refine ⟨⟨[], by rw [hhandles]; rfl, ?_⟩, fun h => hhandles ▸ h⟩
  unfold listedHandles
  rw [hthreads]

theorem refl (d : Debugger b) : Books d [] d := keep rfl rfl

theorem trans (h : Books d dropped d') (h' : Books d' dropped' d'') :
    Books d (dropped' ++ dropped) d'' := by
  obtain ⟨opened, hentries, hperm⟩ := h.entries
  obtain ⟨opened', hentries', hperm'⟩ := h'.entries
  refine ⟨⟨opened' ++ opened, ?_, ?_⟩, fun hd => h'.distinct (h.distinct hd)⟩
  · rw [hentries', hentries, List.append_assoc]
  · rw [List.append_assoc, List.append_assoc]
    refine (hperm.append_left opened').trans ?_
    refine (List.perm_append_comm_assoc _ _ _).trans ?_
    refine (hperm'.append_left dropped).trans ?_
    exact List.perm_append_comm_assoc _ _ _

/-- A handle that is opened before a stretch, and closed after it. -/
theorem bracket (hd : d.os.handles.Distinct) {tid : DWORD} (h : Books (d.opened tid) dropped d') :
    Books d dropped (d'.closing d.os.handles.next) := by
  obtain ⟨opened, hentries, hperm⟩ := h.entries
  have hdistinct : d'.os.handles.Distinct := h.distinct (hd.insert tid)
  refine ⟨⟨opened, HandleTable.close_entries hdistinct hentries, hperm⟩, fun _ => ?_⟩
  exact hdistinct.close _

/-- A handle that is opened before a stretch, and listed after it. -/
theorem append {thread : Thread b} {tid : DWORD} (h : Books (d.opened tid) dropped d')
    (hhandle : thread.hThread = d.os.handles.next) (htid : thread.threadId = tid) :
    Books d dropped { d' with threads := d'.threads ++ [thread] } := by
  obtain ⟨opened, hentries, hperm⟩ := h.entries
  refine ⟨⟨opened ++ [(d.os.handles.next, tid)], ?_, ?_⟩, fun hd => h.distinct (hd.insert tid)⟩
  · rw [List.append_assoc]
    exact hentries
  · have hlisted : listedHandles { d' with threads := d'.threads ++ [thread] } =
        d'.listedHandles ++ [(d.os.handles.next, tid)] := by
      rw [listedHandles, List.map_append, List.map_cons, List.map_nil, hhandle, htid]
      rfl
    rw [hlisted, ← List.append_assoc, List.append_assoc]
    refine (List.perm_append_comm.append_left opened).trans ?_
    rw [← List.append_assoc]
    exact hperm.append_right _

end Books

/-! ## The operations -/

/-- What is listed before an operation is dropped, or stays. -/
def Booked (d d' : Debugger b) : Prop := ∃ dropped, Books d dropped d'

namespace Booked

variable {d d' d'' : Debugger b}

theorem keep (hhandles : d'.os.handles = d.os.handles) (hthreads : d'.threads = d.threads) :
    Booked d d' := ⟨[], .keep hhandles hthreads⟩

theorem trans (h : Booked d d') (h' : Booked d' d'') : Booked d d'' := by
  obtain ⟨dropped, hb⟩ := h
  obtain ⟨dropped', hb'⟩ := h'
  exact ⟨dropped' ++ dropped, hb.trans hb'⟩

theorem of_patch (h : PatchFrame d d') : Booked d d' := by
  refine keep h.handles ?_
  rw [h.rest]

theorem of_control (h : ControlFrame d d') : Booked d d' := by
  refine keep h.handles ?_
  rw [h.rest]

end Booked

theorem listing_books (tid : DWORD) (d : Debugger b) : Books d [] (d.listing tid) := by
  refine ⟨⟨[(d.os.handles.next, tid)], rfl, ?_⟩, fun h => h.insert tid⟩
  have hlisted : (d.listing tid).listedHandles =
      d.listedHandles ++ [(d.os.handles.next, tid)] := by
    rw [listedHandles, listing, List.map_append]
    rfl
  rw [hlisted, List.nil_append]
  exact List.perm_append_comm

theorem openThreads_books (tids : List DWORD) (d : Debugger b) :
    Books d [] (d.openThreads tids) := by
  induction tids generalizing d with
  | nil => exact .refl d
  | cons tid tids ih =>
    rw [openThreads_cons]
    split_ifs
    · exact ih d
    · exact (listing_books tid d).trans (ih _)

/-- A refresh drops all handles of the list. -/
theorem actualizeThreadList_books (d : Debugger b) :
    Books d d.listedHandles d.actualizeThreadList := by
  have hempty : Books d d.listedHandles { d with threads := [] } := by
    refine ⟨⟨[], rfl, ?_⟩, fun h => h⟩
    rw [List.nil_append]
    exact List.Perm.of_eq (List.append_nil _).symm
  simp only [actualizeThreadList]
  split_ifs
  · exact hempty
  · exact hempty
  · exact hempty.trans (openThreads_books _ _)

theorem setHardwareBreakpointOnThread_handles (bp : HwBp b) (d : Debugger b) :
    (d.setHardwareBreakpointOnThread bp).1.os.handles = d.os.handles := by
  unfold setHardwareBreakpointOnThread
  split_ifs
  · rfl
  split
  · rfl
  split
  · rfl
  split
  · rfl
  next os₁ h₁ =>
    have hhandles₁ := Os.suspendThread_handles h₁
    split
    · exact (Os.getD_handles (fun _ h => Os.resumeThread_handles h)).trans hhandles₁
    next os₂ h₂ =>
      have hhandles₂ := (Os.setThreadContext_handles h₂).trans hhandles₁
      split
      · exact hhandles₂
      next os₃ h₃ => exact (Os.resumeThread_handles h₃).trans hhandles₂

theorem clearHardwareBreakpointOnThread_handles (hThread : HANDLE) (reg : DRReg)
    (d : Debugger b) :
    (d.clearHardwareBreakpointOnThread hThread reg).1.os.handles = d.os.handles := by
  unfold clearHardwareBreakpointOnThread
  split_ifs
  · rfl
  split
  · rfl
  next ctx _ =>
    split
    · rfl
    next os₁ h₁ =>
      let os₂ := (os₁.setThreadContext .DEBUG_REGISTERS hThread (ctx.release reg)).getD os₁
      have hhandles₂ : os₂.handles = os₁.handles :=
        Os.getD_handles (fun _ h => Os.setThreadContext_handles h)
      have hhandles₃ : ((os₂.resumeThread hThread).getD os₂).handles = os₂.handles :=
        Os.getD_handles (fun _ h => Os.resumeThread_handles h)
      obtain ⟨tracked, ht⟩ := untrack_eq hThread reg (ctx.drOf reg)
        { d with os := (os₂.resumeThread hThread).getD os₂ }
      change (untrack hThread reg (ctx.drOf reg)
        { d with os := (os₂.resumeThread hThread).getD os₂ }).os.handles = d.os.handles
      rw [ht]
      exact hhandles₃.trans (hhandles₂.trans (Os.suspendThread_handles h₁))

theorem forThreads_booked {op : Thread b → Debugger b → Debugger b × Bool}
    (hop : ∀ thread d, Booked d (op thread d).1) (threads : List (Thread b)) (d : Debugger b) :
    Booked d (forThreads op threads d).1 := by
  induction threads generalizing d with
  | nil => exact .keep rfl rfl
  | cons thread threads ih => exact (hop thread d).trans (ih _)

theorem setHardwareBreakpointOnThread_booked (bp : HwBp b) (d : Debugger b) :
    Booked d (d.setHardwareBreakpointOnThread bp).1 :=
  .keep (setHardwareBreakpointOnThread_handles bp d) (setHardwareBreakpointOnThread_threads bp d)

theorem clearHardwareBreakpointOnThread_booked (hThread : HANDLE) (reg : DRReg)
    (d : Debugger b) : Booked d (d.clearHardwareBreakpointOnThread hThread reg).1 :=
  .keep (clearHardwareBreakpointOnThread_handles hThread reg d)
    (clearHardwareBreakpointOnThread_threads hThread reg d)

theorem actualizeThreadList_booked (d : Debugger b) : Booked d d.actualizeThreadList :=
  ⟨_, actualizeThreadList_books d⟩

theorem setHardwareBreakpoint_booked (bp : HwBp b) (d : Debugger b) :
    Booked d (d.setHardwareBreakpoint bp).1 := by
  unfold setHardwareBreakpoint
  have hrefresh := actualizeThreadList_booked d
  split_ifs
  · exact hrefresh
  · exact (hrefresh.trans (actualizeThreadList_booked _)).trans
      (forThreads_booked (fun _ _ => setHardwareBreakpointOnThread_booked _ _) _ _)

theorem clearHardwareBreakpoint_booked (reg : DRReg) (d : Debugger b) :
    Booked d (d.clearHardwareBreakpoint reg).1 :=
  (actualizeThreadList_booked d).trans
    (forThreads_booked (fun _ _ => clearHardwareBreakpointOnThread_booked _ _ _) _ _)

theorem hwCall_booked (op : HwCall b) (d : Debugger b) : Booked d (op.run d) := by
  cases op with
  | actualizeThreadList => exact actualizeThreadList_booked d
  | hardware op =>
    cases op with
    | setHardwareBreakpoint bp => exact setHardwareBreakpoint_booked bp d
    | setHardwareBreakpointOnThread bp => exact setHardwareBreakpointOnThread_booked bp d
    | clearHardwareBreakpoint reg => exact clearHardwareBreakpoint_booked reg d
    | clearHardwareBreakpointOnThread hThread reg =>
      exact clearHardwareBreakpointOnThread_booked hThread reg d

/-! ## The loop -/

theorem enableSingleStep_booked (hThread : HANDLE) (d : Debugger b) :
    Booked d { d.enableSingleStep hThread with stepping := true } :=
  (Booked.of_control (enableSingleStep_frame hThread d)).trans (.keep rfl rfl)

theorem answerBreakpoint_booked (a : LPVOID b) (hThread : HANDLE) (bpType : BreakpointAction)
    (d : Debugger b) : Booked d (d.answerBreakpoint a hThread bpType) := by
  have hafter : Booked d (d.afterHit a bpType) := by
    cases bpType with
    | BREAK => exact .keep rfl rfl
    | RESTORE => exact .keep rfl rfl
    | SINGLE_STEP => exact .keep rfl rfl
  exact hafter.trans (.of_control (answerBreakpoint_frame a hThread bpType d))

theorem answerStep_booked (a : LPVOID b) (hThread : HANDLE) (bpType : BreakpointAction)
    (d : Debugger b) : Booked d (d.answerStep a hThread bpType) := by
  have hafter : Booked d (d.afterStep a bpType) := by
    unfold afterStep
    split_ifs
    · exact .keep rfl rfl
    · exact .keep rfl rfl
  exact hafter.trans (.of_control (answerStep_frame a hThread bpType d))

theorem answerHardware_booked (a : LPVOID b) (hThread : HANDLE) (reg : DRReg)
    (bpType : BreakpointAction) (d : Debugger b) :
    Booked d (d.answerHardware a hThread reg bpType) := by
  cases bpType with
  | BREAK => exact clearHardwareBreakpoint_booked reg d
  | SINGLE_STEP =>
    exact (enableSingleStep_booked hThread d).trans (clearHardwareBreakpoint_booked reg _)
  | RESTORE =>
    have hafter : Booked d (d.afterHardware a hThread reg) := .keep rfl rfl
    rw [answerHardware_restore]
    exact (hafter.trans (clearHardwareBreakpointOnThread_booked hThread reg _)).trans
      (enableSingleStep_booked hThread _)

theorem restorePending_booked (d : Debugger b) : Booked d d.restorePending := by
  unfold restorePending
  split_ifs
  · exact (setHardwareBreakpoint_booked d.hwBPToRestore d).trans (.keep rfl rfl)
  · exact (Booked.of_patch (setBreakpoint_frame d.bpAddrToRestore d)).trans (.keep rfl rfl)
  · exact .keep rfl rfl

section Loop

variable {cb : Callbacks b} (hcb : ∀ c d, Booked d (cb c d).1)
include hcb

theorem call_booked (c : Call b) (d : Debugger b) : Booked d (d.call cb c).1 :=
  (hcb c d).trans (.keep rfl rfl)

theorem handleBreakpoint_booked (a : LPVOID b) (hThread : HANDLE) (d : Debugger b) :
    Booked d (d.handleBreakpoint cb a hThread) := by
  cases hlisted : d.breakpoints[a]? with
  | none =>
    rw [handleBreakpoint_of_not_listed hlisted]
    exact .keep rfl rfl
  | some x =>
    rw [handleBreakpoint_of_listed hlisted]
    have hrewound : Booked d ((d.restoreBreakpoint a).decrementIP hThread) :=
      (Booked.of_patch (restoreBreakpoint_frame a d)).trans
        (.of_control (decrementIP_frame hThread _))
    exact (hrewound.trans (call_booked hcb (.onBreakpoint a hThread) _)).trans
      (answerBreakpoint_booked a hThread _ _)

theorem handleStep_booked (a : LPVOID b) (hThread : HANDLE) (d : Debugger b) :
    Booked d (d.handleStep cb a hThread) := by
  have hpending := restorePending_booked d
  unfold handleStep
  dsimp only
  split_ifs
  · exact (hpending.trans (call_booked hcb (.onBreakpoint a hThread) _)).trans
      (answerStep_booked a hThread _ _)
  · exact hpending.trans (.keep rfl rfl)

theorem handleHardware_booked (code : DWORD) (a : LPVOID b) (hThread : HANDLE) (d : Debugger b) :
    Booked d (d.handleHardware cb code a hThread) := by
  unfold handleHardware
  dsimp only
  split_ifs
  · exact (call_booked hcb (.onHardwareBreakpoint a hThread _) d).trans
      (answerHardware_booked a hThread _ _ _)
  · exact call_booked hcb _ d

theorem handleException_booked (e : ExceptionEvent b) {d : Debugger b}
    (hd : d.os.handles.Distinct) : Booked d (d.handleException cb e) := by
  cases ho : d.os.fails (.openThread e.dwThreadId) with
  | true =>
    rw [handleException_of_refused ho]
    exact .keep rfl rfl
  | false =>
    have hdispatch : Booked (d.opened e.dwThreadId)
        ((d.opened e.dwThreadId).dispatch cb e d.os.handles.next) := by
      apply dispatch_elim
      · exact fun _ => handleBreakpoint_booked hcb _ _ _
      · exact fun _ _ => handleStep_booked hcb _ _ _
      · exact fun _ _ => handleHardware_booked hcb _ _ _ _
      · exact fun c _ => call_booked hcb c _
    rw [handleException_of_opened ho]
    obtain ⟨dropped, hbooks⟩ := hdispatch
    exact ⟨dropped, hbooks.bracket hd⟩

theorem handleEvent_booked (ev : DebugEvent b) {d : Debugger b} (hd : d.os.handles.Distinct) :
    Booked d (d.handleEvent cb ev).1 := by
  cases ev with
  | EXCEPTION e => exact handleException_booked hcb e hd
  | CREATE_PROCESS base =>
    have hbase : Booked d { d with baseImageBase := base } := .keep rfl rfl
    exact hbase.trans (call_booked hcb _ _)
  | CREATE_THREAD tid base start =>
    cases ho : d.os.fails (.openThread tid) with
    | true =>
      simp only [handleEvent, Os.openThread, ho, if_true]
      exact .keep rfl rfl
    | false =>
      simp only [handleEvent, Os.openThread, ho, Bool.false_eq_true, if_false]
      obtain ⟨dropped, hbooks⟩ := call_booked hcb
        (.onThreadCreate d.os.handles.next tid base start) (d.opened tid)
      exact ⟨dropped, hbooks.append rfl rfl⟩
  | _ => exact call_booked hcb _ d

/-- The rounds: what is opened and not given back at the end of its event is listed, or
has been dropped. -/
theorem rounds_booked {evs : List ((Os b → Os b) × DebugEvent b)}
    (hkeep : ∀ p ∈ evs, ∀ os, (p.1 os).handles = os.handles) {d : Debugger b}
    (hd : d.os.handles.Distinct) : Booked d (d.rounds cb evs) := by
  induction evs generalizing d with
  | nil => exact .keep rfl rfl
  | cons p evs ih =>
    obtain ⟨meanwhile, ev⟩ := p
    unfold rounds
    split_ifs with hloop
    · have hsame : (meanwhile d.os).handles = d.os.handles :=
        hkeep (meanwhile, ev) List.mem_cons_self d.os
      have hmoved : Booked d { d with os := meanwhile d.os } := .keep hsame rfl
      have hevent := hmoved.trans (handleEvent_booked hcb ev
        (d := { d with os := meanwhile d.os }) (hsame.symm ▸ hd))
      dsimp only
      split_ifs
      · exact hevent
      · have hdistinct : _ := hevent.choose_spec.distinct hd
        exact hevent.trans (ih (fun p hp => hkeep p (List.mem_cons_of_mem _ hp)) hdistinct)
    · exact .keep rfl rfl

end Loop

theorem operating_booked (script : Call b → Debugger b → List (HwCall b) × BreakpointAction)
    (c : Call b) (d : Debugger b) : Booked d (operating script c d).1 := by
  change Booked d ((script c d).1.foldl HwCall.run d)
  generalize (script c d).1 = ops
  induction ops generalizing d with
  | nil => exact .keep rfl rfl
  | cons op ops ih => exact (hwCall_booked op d).trans (ih _)

end Debugger

/-- In every run of the loop, with whatever refused calls, no handle is closed that was open
before. What the run has opened and what was listed is, handle for handle, listed at the
end or dropped, and each handle in the list is open and denotes the thread it is listed
for. -/
theorem thread_handles_conserved {script : Call b → Debugger b → List (HwCall b) × BreakpointAction}
    {evs : List ((Os b → Os b) × DebugEvent b)} {d : Debugger b}
    (hkeep : ∀ p ∈ evs, ∀ os, (p.1 os).handles = os.handles) (hd : d.os.handles.Distinct)
    (hlisted : ∀ e ∈ d.listedHandles, e ∈ d.os.handles.entries) :
    let d' := d.loop (operating script) evs
    (∃ opened dropped, d'.os.handles.entries = opened ++ d.os.handles.entries ∧
      (opened ++ d.listedHandles).Perm (dropped ++ d'.listedHandles)) ∧
    d'.os.handles.Distinct ∧
    ∀ thread ∈ d'.threads, d'.os.handles.lookup thread.hThread = some thread.threadId := by
  intro d'
  have hstart : Booked d { d with stepping := false } := .keep rfl rfl
  have hrun : Booked { d with stepping := false } d' :=
    rounds_booked (operating_booked script) hkeep hd
  obtain ⟨dropped, hbooks⟩ := hstart.trans hrun
  obtain ⟨opened, hentries, hperm⟩ := hbooks.entries
  have hdistinct : d'.os.handles.Distinct := hbooks.distinct hd
  refine ⟨⟨opened, dropped, hentries, hperm⟩, hdistinct, fun thread hthread => ?_⟩
  have hmem : (thread.hThread, thread.threadId) ∈ d'.listedHandles :=
    List.mem_map_of_mem (f := fun thread => (thread.hThread, thread.threadId)) hthread
  have hopen : (thread.hThread, thread.threadId) ∈ d'.os.handles.entries := by
    rw [hentries]
    rcases List.mem_append.mp (hperm.mem_iff.mpr (List.mem_append_right dropped hmem)) with h | h
    · exact List.mem_append_left _ h
    · exact List.mem_append_right _ (hlisted _ h)
  exact hdistinct.lookup hopen

/-- A thread is created, and a hardware breakpoint set for the process when it stops. -/
theorem thread_handles_conserved_set :
    let script : Call .x64 → Debugger .x64 → List (HwCall .x64) × BreakpointAction := fun c _ =>
      match c with
      | .onUnknownException a _ =>
        ([.hardware (.setHardwareBreakpoint ⟨0, a, .DR0, .EXECUTE, .BYTE⟩)], .BREAK)
      | _ => ([], .BREAK)
    let evs : List ((Os .x64 → Os .x64) × DebugEvent .x64) := [(id, .CREATE_THREAD 7 0 0),
      (id, .EXCEPTION ⟨0xC0000094, 0x1000, 7, 0, 0⟩)]
    let d : Debugger .x64 := .new (.ofCode (fun _ => 0x90) [7, 8])
    let d' := d.loop (operating script) evs
    (∃ opened dropped, d'.os.handles.entries = opened ++ d.os.handles.entries ∧
      (opened ++ d.listedHandles).Perm (dropped ++ d'.listedHandles)) ∧
    d'.os.handles.Distinct ∧
    ∀ thread ∈ d'.threads, d'.os.handles.lookup thread.hThread = some thread.threadId := by
  intro script evs d
  have hkeep : ∀ p ∈ evs, ∀ os : Os .x64, (p.1 os).handles = os.handles := by
    intro p hp os
    rcases List.mem_cons.mp hp with rfl | hp
    · rfl
    · rw [List.mem_singleton.mp hp]
      rfl
  exact thread_handles_conserved hkeep List.nodup_nil (fun _ he => absurd he List.not_mem_nil)

end RoboDbg
