import RoboDbg.FailedFreeze
import RoboDbg.FreezeArchive

/-!
# Freezes do not nest

Each `suspend` raises the suspend counts by one, but `restore` takes them to zero at
once, whatever was recorded, and waits forever for a thread that runs. The freezer of a
process is a counter that is taken up in steps and down in one: of two freezes, one
inside the other, the inner `restore` sets the process running, and the outer one does
not return.
-/

namespace RoboDbg

open Loops

variable {b : Build}

/-! ## The calls of a program that keeps its freezes -/

inductive FreezerTurn (b : Build)
  /-- `suspend`; the states it returns are kept. -/
  | freeze
  /-- `restore` with the states of the freeze of this number. -/
  | restore (k : ℕ)
  | settings (tid : DWORD) (s : Schedule b)

structure Kept (b : Build) where
  sys : Scheduler b
  kept : List (List (ThreadState b))

/-- One call; the loops of `restore` may take `n` passes. -/
def Kept.turn (fz : Freezer) (n : ℕ) (s : Kept b) : FreezerTurn b → Option (Kept b)
  | .freeze =>
    let r := fz.suspend s.sys
    some ⟨r.2, s.kept ++ r.1.toList⟩
  | .restore k =>
    match s.kept[k]? with
    | none => some s
    | some states => (fz.restore n states s.sys).map (fun r => { s with sys := r.1 })
  | .settings tid sched =>
    let sched := { sched with suspendCount := (s.sys.thread tid).suspendCount }
    some { s with sys := s.sys.withThread tid sched }

/-- The counter: how often the process is frozen, and how many freezes are kept. -/
structure Depth where
  count : ℕ
  kept : ℕ
deriving DecidableEq

/-- `none` for a `restore` that does not return. -/
def Depth.turn (d : Depth) : FreezerTurn b → Option Depth
  | .freeze => some (if d.count < MAXIMUM_SUSPEND_COUNT then ⟨d.count + 1, d.kept + 1⟩ else d)
  | .restore k => if d.kept ≤ k then some d else if d.count = 0 then none else some ⟨0, d.kept⟩
  | .settings _ _ => some d

/-! ## A freeze of threads with one count -/

namespace Suspending

theorem next_frame (s : Suspending b) (tid : DWORD) :
    (s.next tid).sys.fails = s.sys.fails ∧ (s.next tid).sys.snapshot = s.sys.snapshot := by
  rcases s.next_cases tid with ⟨-, st, hnext⟩ | ⟨-, hnext⟩
  · rw [hnext]
    exact ⟨rfl, rfl⟩
  · rw [hnext]
    exact ⟨rfl, rfl⟩

theorem foldl_frame (tids : List DWORD) (s : Suspending b) :
    (tids.foldl next s).sys.fails = s.sys.fails ∧
      (tids.foldl next s).sys.snapshot = s.sys.snapshot := by
  induction tids generalizing s with
  | nil => exact ⟨rfl, rfl⟩
  | cons tid tids ih =>
    obtain ⟨hfails, hsnap⟩ := ih (s.next tid)
    obtain ⟨hfails', hsnap'⟩ := s.next_frame tid
    exact ⟨hfails.trans hfails', hsnap.trans hsnap'⟩

end Suspending

namespace Freezer

variable {fz : Freezer} {sys : Scheduler b}

theorem suspend_eq (hvalid : fz.isValid = true) (hr : sys.Reliable)
    (hne : sys.threadsOf fz.pid_ ≠ []) :
    fz.suspend sys =
      let s := (sys.threadsOf fz.pid_).foldl Suspending.next ⟨[], true, sys⟩
      (s.result, s.sys) := by
  have htids : fz.enumerateThreadIds sys = sys.threadsOf fz.pid_ := by
    rw [enumerateThreadIds, if_pos hvalid]
    exact enumerateThreadIds_eq hr fz.pid_
  have hempty : ¬ (sys.threadsOf fz.pid_).isEmpty = true := by simpa using hne
  rw [suspend, suspendListed, htids, if_neg hempty]

theorem suspend_depth (hvalid : fz.isValid = true) (hr : sys.Reliable)
    (hne : sys.threadsOf fz.pid_ ≠ []) {d : ℕ}
    (hcount : ∀ tid ∈ sys.threadsOf fz.pid_, (sys.thread tid).suspendCount = d) :
    (fz.suspend sys).2.fails = sys.fails ∧ (fz.suspend sys).2.snapshot = sys.snapshot ∧
      (fz.suspend sys).1 = (if d < MAXIMUM_SUSPEND_COUNT
        then some ((sys.threadsOf fz.pid_).map sys.recorded) else none) ∧
      ∀ u, ((fz.suspend sys).2.thread u).suspendCount = (sys.thread u).suspendCount +
        if u ∈ sys.threadsOf fz.pid_ ∧ d < MAXIMUM_SUSPEND_COUNT then 1 else 0 := by
  have hsuspendable : ∀ tid ∈ sys.threadsOf fz.pid_,
      (sys.Suspendable tid ↔ d < MAXIMUM_SUSPEND_COUNT) := by
    intro tid htid
    unfold Scheduler.Suspendable
    rw [hcount tid htid]
    simp [hr _, Scheduler.mem_live_of_mem_threadsOf htid]
  have hnodup := sys.threadsOf_nodup fz.pid_
  obtain ⟨hok, hstates, hcounts⟩ := Suspending.foldl_next hnodup ⟨[], true, sys⟩
  obtain ⟨hfails, hsnap⟩ := Suspending.foldl_frame (sys.threadsOf fz.pid_) ⟨[], true, sys⟩
  obtain ⟨tid, htid⟩ := List.exists_mem_of_ne_nil _ hne
  rw [suspend_eq hvalid hr hne]
  refine ⟨hfails, hsnap, ?_, fun u => ?_⟩
  · split_ifs with hd
    · have hall := hok.mpr ⟨rfl, fun u hu => (hsuspendable u hu).mpr hd⟩
      have hrecorded := Suspending.foldl_recorded hnodup hall
      rw [List.nil_append] at hrecorded
      have hempty : ((sys.threadsOf fz.pid_).map sys.recorded).isEmpty = false := by
        simpa using hne
      simp only [Suspending.result, hall, hrecorded, hempty, Bool.not_true, Bool.or_self,
        Bool.false_eq_true, if_false]
    · rw [Suspending.result_eq_none]
      exact Or.inr (hstates.mpr ⟨rfl, fun u hu h => hd ((hsuspendable u hu).mp h)⟩)
  · rw [hcounts u]
    congr 1
    by_cases hu : u ∈ sys.threadsOf fz.pid_
    · simp only [hu, true_and, hsuspendable u hu]
    · simp only [hu, false_and]

end Freezer

/-! ## The counter follows every run -/

/-- The process has the threads of `sys₀`, all suspended as often as the counter says,
and every freeze kept has an entry for each of them. -/
structure AtDepth (fz : Freezer) (sys₀ : Scheduler b) (s : Kept b) (d : Depth) : Prop where
  reliable : s.sys.Reliable
  snapshot : s.sys.snapshot = sys₀.snapshot
  count : ∀ tid, (s.sys.thread tid).suspendCount =
    if tid ∈ sys₀.threadsOf fz.pid_ then d.count else (sys₀.thread tid).suspendCount
  le : d.count ≤ MAXIMUM_SUSPEND_COUNT
  length : s.kept.length = d.kept
  entries : ∀ states ∈ s.kept, ∃ entry : DWORD → ThreadState b,
    (∀ tid, (entry tid).tid = tid) ∧ (∀ tid, (entry tid).weSuspended = true) ∧
      states = (sys₀.threadsOf fz.pid_).map entry

namespace AtDepth

variable {fz : Freezer} {sys₀ : Scheduler b} {s : Kept b} {d : Depth}

theorem threadsOf (h : AtDepth fz sys₀ s d) :
    s.sys.threadsOf fz.pid_ = sys₀.threadsOf fz.pid_ := by
  unfold Scheduler.threadsOf
  rw [h.snapshot]

theorem settings (h : AtDepth fz sys₀ s d) (tid : DWORD) (sched : Schedule b) :
    Accounts (AtDepth fz sys₀) (fun n => s.turn fz n (.settings tid sched))
      (d.turn (.settings tid sched)) := by
  refine ⟨_, Yields.const _, h.reliable, h.snapshot, fun u => ?_, h.le, h.length, h.entries⟩
  have hsame : SameCounts s.sys (s.sys.withThread tid
      { sched with suspendCount := (s.sys.thread tid).suspendCount }) := .withThread rfl
  rw [← h.count u]
  exact hsame.count u

theorem freeze (h : AtDepth fz sys₀ s d) (hvalid : fz.isValid = true)
    (hne : sys₀.threadsOf fz.pid_ ≠ []) :
    Accounts (AtDepth fz sys₀) (fun n => s.turn fz n .freeze)
      ((d.turn (.freeze : FreezerTurn b))) := by
  have hcount : ∀ tid ∈ s.sys.threadsOf fz.pid_, (s.sys.thread tid).suspendCount = d.count := by
    intro tid htid
    rw [h.threadsOf] at htid
    rw [h.count tid, if_pos htid]
  obtain ⟨hfails, hsnap, hstates, hcounts⟩ :=
    fz.suspend_depth hvalid h.reliable (h.threadsOf ▸ hne) hcount
  rw [h.threadsOf] at hstates hcounts
  have hreliable : (fz.suspend s.sys).2.Reliable := fun c => by
    rw [hfails]
    exact h.reliable c
  refine ⟨_, Yields.const _, hreliable, hsnap.trans h.snapshot, fun u => ?_, ?_, ?_, ?_⟩
  · rw [hcounts u, h.count u]
    by_cases hu : u ∈ sys₀.threadsOf fz.pid_
    · by_cases hd : d.count < MAXIMUM_SUSPEND_COUNT
      · simp only [hu, hd, and_self, if_true]
      · simp only [hu, hd, and_false, if_true, if_false, Nat.add_zero]
    · simp only [hu, false_and, if_false, Nat.add_zero]
  · split_ifs with hd
    · exact hd
    · exact h.le
  · rw [List.length_append, h.length, hstates]
    split_ifs
    · rfl
    · rfl
  · intro states hmem
    rcases List.mem_append.mp hmem with hmem | hmem
    · exact h.entries states hmem
    · rw [hstates] at hmem
      split_ifs at hmem
      · obtain rfl : states = _ := by simpa using hmem
        exact ⟨_, fun _ => rfl, fun _ => rfl, rfl⟩
      · simp at hmem

theorem restore (h : AtDepth fz sys₀ s d) (hvalid : fz.isValid = true)
    (hne : sys₀.threadsOf fz.pid_ ≠ [])
    (hmax : ∀ tid, (sys₀.thread tid).suspendCount ≤ MAXIMUM_SUSPEND_COUNT) (k : ℕ) :
    Accounts (AtDepth fz sys₀) (fun n => s.turn fz n (.restore k))
      ((d.turn (.restore k : FreezerTurn b))) := by
  dsimp only [Kept.turn, Depth.turn]
  rw [← h.length]
  by_cases hk : s.kept.length ≤ k
  · rw [if_pos hk]
    simp only [List.getElem?_eq_none hk]
    exact ⟨s, Yields.const s, h⟩
  · rw [if_neg hk]
    obtain ⟨entry, htid, hwe, hstates⟩ :=
      h.entries _ (List.getElem_mem (not_le.mp hk))
    simp only [List.getElem?_eq_getElem (not_le.mp hk), Freezer.restore, hvalid, Bool.not_true,
      Bool.false_eq_true, if_false, hstates]
    have hnodup := sys₀.threadsOf_nodup fz.pid_
    have hlive : ∀ tid ∈ sys₀.threadsOf fz.pid_, s.sys.Opens tid := by
      intro tid hmem
      refine ⟨h.reliable _, ?_⟩
      rw [← h.threadsOf] at hmem
      exact Scheduler.mem_live_of_mem_threadsOf hmem
    split_ifs with hzero
    · -- the first thread of the process runs, and its entry never ends
      refine ⟨0, fun n _ => ?_⟩
      cases htids : sys₀.threadsOf fz.pid_ with
      | nil => exact absurd htids hne
      | cons tid tids =>
        have hmem : tid ∈ sys₀.threadsOf fz.pid_ := htids ▸ List.mem_cons_self
        have hresumes : (s.sys, true).1.Resumes (entry tid) :=
          ⟨hwe tid, h.reliable _, (htid tid).symm ▸ (hlive tid hmem).2, h.reliable _⟩
        have hcount : ((s.sys, true).1.thread (entry tid).tid).suspendCount = 0 := by
          rw [htid tid, h.count tid, if_pos hmem, hzero]
        have hone := restoreOne_eq_none hresumes hcount n
        simp only [List.map_cons, List.foldlM_cons, hone]
        rfl
    · have hpos : ∀ tid ∈ sys₀.threadsOf fz.pid_, s.sys.Opens tid →
          s.sys.fails (.resumeThread tid) = false → 0 < (s.sys.thread tid).suspendCount := by
        intro tid hmem _ _
        rw [h.count tid, if_pos hmem]
        exact Nat.pos_of_ne_zero hzero
      have hlt : ∀ tid, (s.sys.thread tid).suspendCount < 2 ^ 32 := by
        intro tid
        have hle : (s.sys.thread tid).suspendCount ≤ MAXIMUM_SUSPEND_COUNT := by
          rw [h.count tid]
          split_ifs
          · exact h.le
          · exact hmax tid
        unfold MAXIMUM_SUSPEND_COUNT at hle
        omega
      obtain ⟨r, hyields, hfails, hsnap, -, hthread⟩ :=
        restoreEach_restored htid hwe hnodup true hlt hpos
      have hreliable : r.1.Reliable := fun c => by
        rw [hfails]
        exact h.reliable c
      refine ⟨_, hyields.map _, hreliable, hsnap.trans h.snapshot, fun u => ?_, Nat.zero_le _,
        rfl, h.entries⟩
      rw [hthread u]
      by_cases hu : u ∈ sys₀.threadsOf fz.pid_
      · rw [if_pos ⟨hu, hlive u hu⟩, if_pos hu]
        dsimp only [Scheduler.restored]
        rw [if_neg (by simp [h.reliable _])]
      · rw [if_neg (fun hc => hu hc.1), if_neg hu, h.count u, if_neg hu]

theorem turn (h : AtDepth fz sys₀ s d) (hvalid : fz.isValid = true)
    (hne : sys₀.threadsOf fz.pid_ ≠ [])
    (hmax : ∀ tid, (sys₀.thread tid).suspendCount ≤ MAXIMUM_SUSPEND_COUNT) (t : FreezerTurn b) :
    Accounts (AtDepth fz sys₀) (fun n => s.turn fz n t) (d.turn t) := by
  cases t with
  | freeze => exact h.freeze hvalid hne
  | restore k => exact h.restore hvalid hne hmax k
  | settings tid sched => exact h.settings tid sched

end AtDepth

/-- Every run of freezes and restores of a process is what the counter says: it ends
exactly if no `restore` meets the counter at zero, and every thread of the process is
then suspended as often as the counter says, all other threads as before. -/
theorem freezes_do_not_nest {b : Build} {fz : Freezer} {sys : Scheduler b} (hr : sys.Reliable)
    (hvalid : fz.isValid = true) (hne : sys.threadsOf fz.pid_ ≠ [])
    (hrunning : ∀ tid ∈ sys.threadsOf fz.pid_, (sys.thread tid).suspendCount = 0)
    (hmax : ∀ tid, (sys.thread tid).suspendCount ≤ MAXIMUM_SUSPEND_COUNT)
    (turns : List (FreezerTurn b)) :
    ((∃ s, Yields (fun n => turns.foldlM (Kept.turn fz n) ⟨sys, []⟩) s) ↔
        (turns.foldlM Depth.turn ⟨0, 0⟩).isSome = true) ∧
      ∀ s, Yields (fun n => turns.foldlM (Kept.turn fz n) ⟨sys, []⟩) s →
        ∃ d, turns.foldlM Depth.turn ⟨0, 0⟩ = some d ∧ s.kept.length = d.kept ∧
          ∀ tid, (s.sys.thread tid).suspendCount = if tid ∈ sys.threadsOf fz.pid_
            then d.count else (sys.thread tid).suspendCount := by
  have hstart : AtDepth fz sys ⟨sys, []⟩ ⟨0, 0⟩ := by
    refine ⟨hr, rfl, fun tid => ?_, Nat.zero_le _, rfl, by simp⟩
    split_ifs with htid
    · exact hrunning tid htid
    · rfl
  have hrun := Accounts.foldlM (fun s d t h => AtDepth.turn h hvalid hne hmax t) hstart turns
  refine ⟨hrun.yields_iff, fun s hs => ?_⟩
  obtain ⟨d, hd, hat⟩ := hrun.related hs
  exact ⟨d, hd, hat.length, hat.count⟩

theorem freezes_do_not_nest_twice :
    let sys : Scheduler .x64 := .ofThreads [7, 8] (by decide) (fun _ => 0)
    let fz : Freezer := ⟨4, 1⟩
    let turns : List (FreezerTurn .x64) := [.freeze, .freeze, .restore 1, .restore 0]
    ((∃ s, Yields (fun n => turns.foldlM (Kept.turn fz n) ⟨sys, []⟩) s) ↔
        (turns.foldlM Depth.turn ⟨0, 0⟩).isSome = true) ∧
      ∀ s, Yields (fun n => turns.foldlM (Kept.turn fz n) ⟨sys, []⟩) s →
        ∃ d, turns.foldlM Depth.turn ⟨0, 0⟩ = some d ∧ s.kept.length = d.kept ∧
          ∀ tid, (s.sys.thread tid).suspendCount = if tid ∈ sys.threadsOf fz.pid_
            then d.count else (sys.thread tid).suspendCount :=
  freezes_do_not_nest (fun _ => rfl) rfl (by decide) (fun _ _ => rfl)
    (fun _ => Nat.zero_le _) _

-- the inner `restore` returns, the outer one does not
example : ([.freeze, .freeze, .restore 1] : List (FreezerTurn .x64)).foldlM
    Depth.turn ⟨0, 0⟩ = some ⟨0, 2⟩ := by decide

example : ([.freeze, .freeze, .restore 1, .restore 0] : List (FreezerTurn .x64)).foldlM
    Depth.turn ⟨0, 0⟩ = none := by decide

end RoboDbg
