import Mathlib.Data.Finset.Basic
import RoboDbg.FreezeRestore
import RoboDbg.Foundation.Runs

/-!
# Freezing a running process

The snapshot is taken once and its threads are suspended one by one, while
threads may be created and may end. The states returned are complete unless a
thread that the loop will not come to was created in between and is still alive.
-/

namespace RoboDbg

open Runs

variable {b : Build}

namespace Scheduler

variable {sys : Scheduler b}

/-- A new thread, last in later snapshots. -/
def create (sys : Scheduler b) (te : ThreadEntry32) (s : Schedule b)
    (hnew : te.th32ThreadID ∉ sys.live) : Scheduler b where
  snapshot := sys.snapshot ++ [te]
  distinct := by
    rw [List.map_append, List.nodup_append]
    refine ⟨sys.distinct, List.nodup_singleton _, fun x hx y hy => ?_⟩
    rw [List.map_singleton, List.mem_singleton] at hy
    rintro rfl
    exact hnew (hy ▸ hx)
  thread := Function.update sys.thread te.th32ThreadID s
  fails := sys.fails

def exit (sys : Scheduler b) (tid : DWORD) : Scheduler b :=
  { sys with
    snapshot := sys.snapshot.filter (fun te => te.th32ThreadID ≠ tid)
    distinct := sys.distinct.sublist (List.filter_sublist.map _) }

theorem mem_threadsOf {pid tid : DWORD} :
    tid ∈ sys.threadsOf pid ↔
      ∃ te ∈ sys.snapshot, te.th32OwnerProcessID = pid ∧ te.th32ThreadID = tid := by
  simp only [threadsOf, List.mem_map, List.mem_filter, decide_eq_true_eq, and_assoc]

theorem mem_threadsOf_create {te : ThreadEntry32} (s : Schedule b)
    (hnew : te.th32ThreadID ∉ sys.live) {pid tid : DWORD} :
    tid ∈ (sys.create te s hnew).threadsOf pid ↔
      tid ∈ sys.threadsOf pid ∨ (te.th32OwnerProcessID = pid ∧ te.th32ThreadID = tid) := by
  simp only [mem_threadsOf, create, List.mem_append, List.mem_singleton, or_and_right, exists_or,
    exists_eq_left]

theorem mem_threadsOf_exit {pid tid u : DWORD} :
    u ∈ (sys.exit tid).threadsOf pid ↔ u ∈ sys.threadsOf pid ∧ u ≠ tid := by
  simp only [mem_threadsOf, exit, List.mem_filter, decide_eq_true_eq]
  constructor
  · rintro ⟨te, ⟨hmem, hne⟩, hpid, rfl⟩
    exact ⟨⟨te, hmem, hpid, rfl⟩, hne⟩
  · rintro ⟨⟨te, hmem, hpid, rfl⟩, hne⟩
    exact ⟨te, ⟨hmem, hne⟩, hpid, rfl⟩

theorem live_of_snapshot {sys' : Scheduler b} (h : sys'.snapshot = sys.snapshot) :
    sys'.live = sys.live := by
  rw [live, live, h]

theorem threadsOf_of_snapshot {sys' : Scheduler b} (h : sys'.snapshot = sys.snapshot)
    (pid : DWORD) : sys'.threadsOf pid = sys.threadsOf pid := by
  rw [threadsOf, threadsOf, h]

end Scheduler

/-- The loop of `suspend` or `suspendByPID` in the middle. `frozen` are the live
threads that it has suspended, `late` those threads of the process that were
created after the snapshot under an identifier that the loop has behind it or
does not know. -/
structure Freezing (b : Build) where
  loop : Suspending b
  todo : List DWORD
  frozen : Finset DWORD
  late : Finset DWORD

inductive FreezeTurn (b : Build)
  | suspend
  | create (te : ThreadEntry32) (s : Schedule b)
  | exit (tid : DWORD)
  | other (thread : DWORD → Schedule b)

namespace Freezing

def start (pid : DWORD) (sys : Scheduler b) : Freezing b :=
  ⟨⟨[], true, sys⟩, enumerateThreadIds sys pid, ∅, ∅⟩

def pass (s : Freezing b) (tid : DWORD) (todo : List DWORD) : Freezing b where
  loop := s.loop.next tid
  todo := todo
  frozen := if (suspendOne tid s.loop.sys).1.isSome then insert tid s.frozen else s.frozen
  late := s.late

def withSys (s : Freezing b) (sys : Scheduler b) : Freezing b :=
  { s with loop := { s.loop with sys := sys } }

def created (pid : DWORD) (s : Freezing b) (te : ThreadEntry32) (sched : Schedule b)
    (hnew : te.th32ThreadID ∉ s.loop.sys.live) : Freezing b :=
  { s.withSys (s.loop.sys.create te sched hnew) with
    late := if te.th32OwnerProcessID = pid ∧ te.th32ThreadID ∉ s.todo
      then insert te.th32ThreadID s.late else s.late }

def exited (s : Freezing b) (tid : DWORD) : Freezing b :=
  { s.withSys (s.loop.sys.exit tid) with
    frozen := s.frozen.erase tid
    late := s.late.erase tid }

end Freezing

/-- What the loop does and what happens to threads meanwhile, in any order. -/
inductive FreezeStep (pid : DWORD) : Freezing b → FreezeTurn b → Freezing b → Prop
  | suspend {s : Freezing b} {tid : DWORD} {todo : List DWORD} (h : s.todo = tid :: todo) :
      FreezeStep pid s .suspend (s.pass tid todo)
  | create {s : Freezing b} (te : ThreadEntry32) (sched : Schedule b)
      (hnew : te.th32ThreadID ∉ s.loop.sys.live) :
      FreezeStep pid s (.create te sched) (s.created pid te sched hnew)
  | exit {s : Freezing b} (tid : DWORD) : FreezeStep pid s (.exit tid) (s.exited tid)
  | other {s : Freezing b} (thread : DWORD → Schedule b) :
      FreezeStep pid s (.other thread) (s.withSys { s.loop.sys with thread := thread })

namespace Freezing

variable {s s' : Freezing b} {pid : DWORD} {listed : List DWORD}

def ids (s : Freezing b) : List DWORD := s.loop.states.map (·.tid)

/-- Every thread of the process has been suspended by the call and is in the
states exactly once. -/
def Complete (pid : DWORD) (s : Freezing b) : Prop :=
  ∀ tid ∈ s.loop.sys.threadsOf pid, tid ∈ s.frozen ∧ s.ids.count tid = 1

/-- Every thread of the process is still to come, suspended or late. -/
structure Tracked (pid : DWORD) (listed : List DWORD) (s : Freezing b) : Prop where
  nodup : (s.ids ++ s.todo).Nodup
  snapshot : ∀ tid ∈ s.ids ++ s.todo, tid ∈ listed
  recorded : ∀ tid ∈ s.frozen, tid ∈ s.ids ∧ tid ∈ s.loop.sys.live
  late : ∀ tid ∈ s.late, tid ∈ s.loop.sys.threadsOf pid ∧ tid ∉ s.frozen ∧ tid ∉ s.todo
  covered : listed ≠ [] → s.loop.okAll = true →
    ∀ tid ∈ s.loop.sys.threadsOf pid, tid ∈ s.todo ∨ tid ∈ s.frozen ∨ tid ∈ s.late

theorem start_tracked (pid : DWORD) (sys : Scheduler b) :
    Tracked pid (enumerateThreadIds sys pid) (start pid sys) := by
  have hnodup : (enumerateThreadIds sys pid).Nodup := by
    unfold enumerateThreadIds
    split_ifs
    · exact List.nodup_nil
    · exact sys.threadsOf_nodup pid
  refine ⟨hnodup, fun _ h => h, ?_, ?_, ?_⟩
  · intro tid h
    exact absurd h (Finset.notMem_empty tid)
  · intro tid h
    exact absurd h (Finset.notMem_empty tid)
  · intro hne _ tid htid
    left
    unfold enumerateThreadIds at hne
    split_ifs at hne with hfail
    · exact absurd rfl hne
    · simpa only [start, enumerateThreadIds, if_neg hfail] using htid

theorem Tracked.withSys (h : Tracked pid listed s) {sys : Scheduler b}
    (hsnap : sys.snapshot = s.loop.sys.snapshot) : Tracked pid listed (s.withSys sys) := by
  have hthreads : sys.threadsOf pid = s.loop.sys.threadsOf pid :=
    Scheduler.threadsOf_of_snapshot hsnap pid
  have hlive : sys.live = s.loop.sys.live := Scheduler.live_of_snapshot hsnap
  refine ⟨h.nodup, h.snapshot, ?_, ?_, ?_⟩
  · intro tid htid
    obtain ⟨hid, hmem⟩ := h.recorded tid htid
    exact ⟨hid, hlive ▸ hmem⟩
  · intro tid htid
    obtain ⟨hmem, hrest⟩ := h.late tid htid
    exact ⟨hthreads ▸ hmem, hrest⟩
  · intro hne hok tid htid
    exact h.covered hne hok tid (hthreads ▸ htid)

theorem Tracked.failed (h : Tracked pid listed s) {tid : DWORD} {todo : List DWORD}
    (htodo : s.todo = tid :: todo) :
    Tracked pid listed { s with loop := { s.loop with okAll := false }, todo := todo } := by
  have hnodup := h.nodup
  have hlisted := h.snapshot
  rw [htodo] at hnodup hlisted
  refine ⟨?_, ?_, h.recorded, ?_, fun _ hok => by cases hok⟩
  · exact hnodup.sublist ((List.sublist_cons_self tid todo).append_left _)
  · intro u hu
    refine hlisted u ?_
    rcases List.mem_append.mp hu with hu | hu
    · exact List.mem_append_left _ hu
    · exact List.mem_append_right _ (List.mem_cons_of_mem _ hu)
  · intro u hu
    obtain ⟨hmem, hfrozen, hnot⟩ := h.late u hu
    rw [htodo] at hnot
    exact ⟨hmem, hfrozen, fun hc => hnot (List.mem_cons_of_mem _ hc)⟩

theorem Tracked.suspended (h : Tracked pid listed s) {tid : DWORD} {todo : List DWORD}
    (htodo : s.todo = tid :: todo) {st : ThreadState b} (htid : st.tid = tid)
    (hlive : tid ∈ s.loop.sys.live) :
    Tracked pid listed ⟨⟨s.loop.states ++ [st], s.loop.okAll, s.loop.sys.suspended tid⟩, todo,
      insert tid s.frozen, s.late⟩ := by
  have hnodup := h.nodup
  have hlisted := h.snapshot
  rw [htodo] at hnodup hlisted
  let s' : Freezing b := ⟨⟨s.loop.states ++ [st], s.loop.okAll, s.loop.sys.suspended tid⟩, todo,
    insert tid s.frozen, s.late⟩
  have hids : s'.ids = s.ids ++ [tid] := by
    simp [ids, s', htid]
  have hperm : s'.ids ++ s'.todo = s.ids ++ tid :: todo := by
    rw [hids, List.append_assoc, List.singleton_append]
  refine ⟨hperm ▸ hnodup, hperm ▸ hlisted, ?_, ?_, ?_⟩
  · intro u hu
    change u ∈ s'.ids ∧ _
    rw [hids]
    rcases Finset.mem_insert.mp hu with rfl | hu
    · exact ⟨List.mem_append_right _ (List.mem_singleton_self u), hlive⟩
    · exact ⟨List.mem_append_left _ (h.recorded u hu).1, (h.recorded u hu).2⟩
  · intro u hu
    obtain ⟨hmem, hfrozen, hnot⟩ := h.late u hu
    rw [htodo] at hnot
    refine ⟨hmem, fun hc => ?_, fun hc => hnot (List.mem_cons_of_mem _ hc)⟩
    rcases Finset.mem_insert.mp hc with rfl | hc
    · exact hnot List.mem_cons_self
    · exact hfrozen hc
  · intro hne hok u hu
    rcases h.covered hne hok u hu with hc | hc | hc
    · rw [htodo] at hc
      rcases List.mem_cons.mp hc with rfl | hc
      · exact Or.inr (Or.inl (Finset.mem_insert_self u s.frozen))
      · exact Or.inl hc
    · exact Or.inr (Or.inl (Finset.mem_insert_of_mem hc))
    · exact Or.inr (Or.inr hc)

theorem Tracked.pass (h : Tracked pid listed s) {tid : DWORD} {todo : List DWORD}
    (htodo : s.todo = tid :: todo) : Tracked pid listed (s.pass tid todo) := by
  rcases suspendOne_cases tid s.loop.sys with hno | ⟨st, hst, htid, hlive, -⟩
  · have hpass : s.pass tid todo =
        { s with loop := { s.loop with okAll := false }, todo := todo } := by
      simp only [Freezing.pass, Suspending.next, hno, Option.isSome_none, Bool.false_eq_true,
        if_false]
    rw [hpass]
    exact h.failed htodo
  · have hpass : s.pass tid todo = ⟨⟨s.loop.states ++ [st], s.loop.okAll,
        s.loop.sys.suspended tid⟩, todo, insert tid s.frozen, s.late⟩ := by
      simp only [Freezing.pass, Suspending.next, hst, Option.isSome_some, if_true]
    rw [hpass]
    exact h.suspended htodo htid hlive

theorem Tracked.created (h : Tracked pid listed s) {te : ThreadEntry32} (sched : Schedule b)
    (hnew : te.th32ThreadID ∉ s.loop.sys.live) :
    Tracked pid listed (s.created pid te sched hnew) := by
  have hthread : ∀ {tid}, tid ∈ (s.loop.sys.create te sched hnew).threadsOf pid ↔
      tid ∈ s.loop.sys.threadsOf pid ∨ (te.th32OwnerProcessID = pid ∧ te.th32ThreadID = tid) :=
    Scheduler.mem_threadsOf_create sched hnew
  have hlate : ∀ tid, tid ∈ (s.created pid te sched hnew).late ↔ tid ∈ s.late ∨
      (te.th32OwnerProcessID = pid ∧ te.th32ThreadID = tid ∧ tid ∉ s.todo) := by
    intro tid
    simp only [Freezing.created]
    split_ifs with hc
    · rw [Finset.mem_insert]
      grind
    · grind
  refine ⟨h.nodup, h.snapshot, ?_, ?_, ?_⟩
  · intro tid htid
    obtain ⟨hid, hmem⟩ := h.recorded tid htid
    refine ⟨hid, ?_⟩
    change tid ∈ (s.loop.sys.snapshot ++ [te]).map (·.th32ThreadID)
    rw [List.map_append]
    exact List.mem_append_left _ hmem
  · intro tid htid
    rcases (hlate tid).mp htid with hmem | ⟨hpid, rfl, htodo⟩
    · obtain ⟨hold, hrest⟩ := h.late tid hmem
      exact ⟨hthread.mpr (Or.inl hold), hrest⟩
    · refine ⟨hthread.mpr (Or.inr ⟨hpid, rfl⟩), fun hc => ?_, htodo⟩
      exact hnew (h.recorded _ hc).2
  · intro hne hok tid htid
    rcases hthread.mp htid with hold | ⟨hpid, rfl⟩
    · rcases h.covered hne hok tid hold with hc | hc | hc
      · exact Or.inl hc
      · exact Or.inr (Or.inl hc)
      · exact Or.inr (Or.inr ((hlate tid).mpr (Or.inl hc)))
    · by_cases htodo : te.th32ThreadID ∈ s.todo
      · exact Or.inl htodo
      · exact Or.inr (Or.inr ((hlate _).mpr (Or.inr ⟨hpid, rfl, htodo⟩)))

theorem Tracked.exited (h : Tracked pid listed s) (tid : DWORD) :
    Tracked pid listed (s.exited tid) := by
  refine ⟨h.nodup, h.snapshot, ?_, ?_, ?_⟩
  · intro u hu
    obtain ⟨hne, hmem⟩ := Finset.mem_erase.mp hu
    obtain ⟨hid, hlive⟩ := h.recorded u hmem
    obtain ⟨te, hte, rfl⟩ := List.mem_map.mp hlive
    refine ⟨hid, List.mem_map_of_mem (List.mem_filter.mpr ⟨hte, ?_⟩)⟩
    simpa using hne
  · intro u hu
    obtain ⟨hne, hmem⟩ := Finset.mem_erase.mp hu
    obtain ⟨hthread, hfrozen, htodo⟩ := h.late u hmem
    refine ⟨Scheduler.mem_threadsOf_exit.mpr ⟨hthread, hne⟩, fun hc => ?_, htodo⟩
    exact hfrozen (Finset.mem_of_mem_erase hc)
  · intro hne hok u hu
    obtain ⟨hthread, hut⟩ := Scheduler.mem_threadsOf_exit.mp hu
    rcases h.covered hne hok u hthread with hc | hc | hc
    · exact Or.inl hc
    · exact Or.inr (Or.inl (Finset.mem_erase.mpr ⟨hut, hc⟩))
    · exact Or.inr (Or.inr (Finset.mem_erase.mpr ⟨hut, hc⟩))

theorem Tracked.step (h : Tracked pid listed s) {turn : FreezeTurn b}
    (hstep : FreezeStep pid s turn s') : Tracked pid listed s' := by
  cases hstep with
  | suspend htodo => exact h.pass htodo
  | create te sched hnew => exact h.created sched hnew
  | exit tid => exact h.exited tid
  | other thread => exact h.withSys rfl

/-- Without other steps the loop is the one of the sequential function. -/
theorem run_passes (pid : DWORD) (s : Freezing b) :
    ∃ turns s', Run (FreezeStep pid) s turns s' ∧ s'.todo = [] ∧
      s'.loop = s.todo.foldl Suspending.next s.loop := by
  generalize htodo : s.todo = todo
  induction todo generalizing s with
  | nil => exact ⟨[], s, .nil s, htodo, rfl⟩
  | cons tid todo ih =>
    obtain ⟨turns, s', hrun, hend, hloop⟩ := ih (s.pass tid todo) rfl
    exact ⟨_, s', .cons (.suspend htodo) hrun, hend, hloop⟩

end Freezing

open Freezing

/-- `suspend` and `suspendByPID` are the run without other steps. -/
theorem suspendByPID_run (pid : DWORD) (sys : Scheduler b) :
    ∃ turns s, Run (FreezeStep pid) (start pid sys) turns s ∧ s.todo = [] ∧
      suspendByPID pid sys = (s.loop.result, s.loop.sys) := by
  obtain ⟨turns, s, hrun, hend, hloop⟩ := run_passes pid (start pid sys)
  refine ⟨turns, s, hrun, hend, ?_⟩
  rw [hloop, suspendByPID, suspendListed]
  split_ifs with hempty
  · have hnil : (start pid sys).todo = [] := List.isEmpty_iff.mp hempty
    rw [hnil]
    rfl
  · rfl

/-- Whatever happens while `suspend` or `suspendByPID` runs: if the call returns
states, they are complete exactly if no late thread is alive at the end. -/
theorem freeze_complete_iff {b : Build} {pid : DWORD} {sys : Scheduler b} {s : Freezing b}
    {turns : List (FreezeTurn b)} {states : List (ThreadState b)}
    (hrun : Run (FreezeStep pid) (start pid sys) turns s) (hend : s.todo = [])
    (hresult : s.loop.result = some states) : s.Complete pid ↔ s.late = ∅ := by
  have htracked : Tracked pid (enumerateThreadIds sys pid) s :=
    hrun.invariant (fun _ _ _ h hstep => h.step hstep) (start_tracked pid sys)
  obtain ⟨hok, -⟩ := Suspending.result_eq_some hresult
  constructor
  · intro hcomplete
    rw [Finset.eq_empty_iff_forall_notMem]
    intro tid htid
    obtain ⟨hmem, hfrozen, -⟩ := htracked.late tid htid
    exact hfrozen (hcomplete tid hmem).1
  · intro hlate tid htid
    have hlisted : enumerateThreadIds sys pid ≠ [] := by
      intro hnil
      have hnone : s.loop.states = [] := by
        rw [List.eq_nil_iff_forall_not_mem]
        intro st hst
        have hmem := htracked.snapshot st.tid (List.mem_append_left _ (List.mem_map_of_mem hst))
        rw [hnil] at hmem
        cases hmem
      simp [Suspending.result, hnone] at hresult
    have hfrozen : tid ∈ s.frozen := by
      rcases htracked.covered hlisted hok tid htid with hc | hc | hc
      · rw [hend] at hc
        cases hc
      · exact hc
      · rw [hlate] at hc
        exact absurd hc (Finset.notMem_empty tid)
    have hids : s.ids.Nodup := by
      have hnodup := htracked.nodup
      rwa [hend, List.append_nil] at hnodup
    exact ⟨hfrozen, List.count_eq_one_of_mem hids (htracked.recorded tid hfrozen).1⟩

/-- Thread 9 is created while the loop runs and ends again. -/
theorem freeze_complete_iff_ended :
    let sys : Scheduler .x64 := .ofThreads [7, 8] (by decide) (fun _ => 0)
    let s₁ := (start 1 sys).pass 7 [8]
    let s₃ := (s₁.created 1 ⟨1, 9⟩ (sys.thread 7) (by decide)).exited 9
    (s₃.pass 8 []).Complete 1 ↔ (s₃.pass 8 []).late = ∅ := by
  intro sys s₁ s₃
  let s₂ := s₁.created 1 ⟨1, 9⟩ (sys.thread 7) (by decide)
  have h₁ : FreezeStep 1 (start 1 sys) .suspend s₁ := .suspend rfl
  have h₂ : FreezeStep 1 s₁ (.create ⟨1, 9⟩ (sys.thread 7)) s₂ := .create _ _ (by decide)
  have h₃ : FreezeStep 1 s₂ (.exit 9) s₃ := .exit 9
  have h₄ : FreezeStep 1 s₃ .suspend (s₃.pass 8 []) := .suspend rfl
  exact freeze_complete_iff (.cons h₁ (.cons h₂ (.cons h₃ (.cons h₄ (.nil _))))) rfl rfl

/-- Thread 7 creates thread 9 before it is suspended: the call returns the state
of 7, and 9 runs on. -/
theorem created_thread_not_frozen :
    let sys : Scheduler .x64 := .ofThreads [7] (by decide) (fun _ => 0)
    ∃ turns s states, Run (FreezeStep 1) (start 1 sys) turns s ∧ s.todo = [] ∧
      s.loop.result = some states ∧ 9 ∈ s.loop.sys.threadsOf 1 ∧
      (s.loop.sys.thread 9).suspendCount = 0 ∧ ¬ s.Complete 1 := by
  intro sys
  let s₁ := (start 1 sys).created 1 ⟨1, 9⟩ (sys.thread 7) (by decide)
  have h₁ : FreezeStep 1 (start 1 sys) (.create ⟨1, 9⟩ (sys.thread 7)) s₁ := .create _ _ (by decide)
  have h₂ : FreezeStep 1 s₁ .suspend (s₁.pass 7 []) := .suspend rfl
  refine ⟨_, _, _, .cons h₁ (.cons h₂ (.nil _)), rfl, rfl, by decide, by decide, ?_⟩
  intro hcomplete
  have hfrozen := (hcomplete 9 (by decide)).1
  revert hfrozen
  decide

end RoboDbg
