import RoboDbg.FreezeRestore

/-!
# When `restore` returns

The resume loop of an entry waits for the previous count 1. It sees that count
when the thread is suspended, however often; on a running thread every call
returns 0 and the loop does not end. An entry also leaves its thread running,
so a later entry for the same thread meets the count 0.
-/

namespace RoboDbg

open Loops

variable {b : Build}

/-- The entry opens its thread and enters the resume loop, and resuming works. -/
def Scheduler.Resumes (sys : Scheduler b) (st : ThreadState b) : Prop :=
  st.weSuspended = true ∧ sys.fails (.openThread st.tid) = false ∧ st.tid ∈ sys.live ∧
    sys.fails (.resumeThread st.tid) = false

instance (sys : Scheduler b) (st : ThreadState b) : Decidable (sys.Resumes st) :=
  inferInstanceAs (Decidable (_ ∧ _ ∧ _ ∧ _))

/-- Every thread that is resumed is suspended, and no thread is resumed twice. -/
def Restorable (sys : Scheduler b) (states : List (ThreadState b)) : Prop :=
  (∀ st ∈ states, sys.Resumes st → 0 < (sys.thread st.tid).suspendCount) ∧
    ((states.filter (sys.Resumes ·)).map (·.tid)).Nodup

/-! ## One entry -/

def ThreadState.writeBack (st : ThreadState b) (th : DWORD) (sys : Scheduler b) : Scheduler b :=
  let sys :=
    if st.groupAffinity.Mask ≠ 0 then sys.setThreadGroupAffinity th st.groupAffinity else sys
  (sys.setThreadPriority th st.dynPriority).setThreadPriorityBoost th st.boostDisabled

theorem restoreOne_eq (n : ℕ) (s : Scheduler b × Bool) (st : ThreadState b) :
    restoreOne n s st =
      match s.1.openThreadHandle st.tid with
      | none => some (s.1, false)
      | some th =>
        if !st.weSuspended then some (st.writeBack th s.1, s.2)
        else resumeLoop n th (st.writeBack th s.1, s.2) := rfl

structure SameCounts (sys sys' : Scheduler b) : Prop where
  fails : sys'.fails = sys.fails
  snapshot : sys'.snapshot = sys.snapshot
  count : ∀ tid, (sys'.thread tid).suspendCount = (sys.thread tid).suspendCount

namespace SameCounts

variable {sys sys' sys'' : Scheduler b}

theorem refl (sys : Scheduler b) : SameCounts sys sys := ⟨rfl, rfl, fun _ => rfl⟩

theorem trans (h : SameCounts sys sys') (h' : SameCounts sys' sys'') : SameCounts sys sys'' :=
  ⟨h'.fails.trans h.fails, h'.snapshot.trans h.snapshot,
    fun tid => (h'.count tid).trans (h.count tid)⟩

theorem withThread {tid : DWORD} {s : Schedule b}
    (hs : s.suspendCount = (sys.thread tid).suspendCount) :
    SameCounts sys (sys.withThread tid s) := by
  refine ⟨rfl, rfl, fun u => ?_⟩
  by_cases hu : u = tid
  · subst hu
    simp [hs]
  · simp [hu]

theorem writeBack (st : ThreadState b) (th : DWORD) (sys : Scheduler b) :
    SameCounts sys (st.writeBack th sys) := by
  have haffinity : ∀ sys : Scheduler b,
      SameCounts sys (sys.setThreadGroupAffinity th st.groupAffinity) := by
    intro sys
    unfold Scheduler.setThreadGroupAffinity
    split_ifs
    · exact .refl sys
    · exact .withThread rfl
  have hpriority : ∀ sys : Scheduler b,
      SameCounts sys (sys.setThreadPriority th st.dynPriority) := by
    intro sys
    unfold Scheduler.setThreadPriority
    split_ifs
    · exact .refl sys
    · exact .withThread rfl
    · exact .refl sys
  have hboost : ∀ sys : Scheduler b,
      SameCounts sys (sys.setThreadPriorityBoost th st.boostDisabled) := by
    intro sys
    unfold Scheduler.setThreadPriorityBoost
    split_ifs
    · exact .refl sys
    · exact .withThread rfl
  unfold ThreadState.writeBack
  dsimp only
  split_ifs
  · exact ((haffinity sys).trans (hpriority _)).trans (hboost _)
  · exact (hpriority sys).trans (hboost _)

end SameCounts

theorem resumePass_zero {th : DWORD} {s : Scheduler b × Bool}
    (hresume : s.1.fails (.resumeThread th) = false) (hcount : (s.1.thread th).suspendCount = 0) :
    resumePass th s = .again s := by
  have hself : s.1.withThread th { s.1.thread th with suspendCount := 0 } = s.1 := by
    rw [← hcount]
    exact s.1.withThread_self th
  simp [resumePass, Scheduler.resumeThread, hresume, hcount, hself]

/-- The resume loop does not end on a running thread. -/
theorem resumeLoop_eq_none {th : DWORD} {s : Scheduler b × Bool}
    (hresume : s.1.fails (.resumeThread th) = false) (hcount : (s.1.thread th).suspendCount = 0)
    (n : ℕ) : resumeLoop n th s = none := by
  have hgo : ∀ s' : Scheduler b × Bool, s' = s →
      ∃ s'', some (resumePass th s') = some (.again s'') ∧ s'' = s := by
    rintro _ rfl
    exact ⟨_, congrArg some (resumePass_zero hresume hcount), rfl⟩
  exact forever_eq_none hgo n rfl

structure AfterEntry (st : ThreadState b) (sys sys' : Scheduler b) : Prop where
  fails : sys'.fails = sys.fails
  snapshot : sys'.snapshot = sys.snapshot
  count : ∀ tid, (sys'.thread tid).suspendCount =
    if sys.Resumes st ∧ tid = st.tid then 0 else (sys.thread tid).suspendCount

theorem SameCounts.afterEntry {st : ThreadState b} {sys sys' : Scheduler b}
    (h : SameCounts sys sys') (hno : ¬ sys.Resumes st) : AfterEntry st sys sys' :=
  ⟨h.fails, h.snapshot, fun tid => by rw [h.count tid, if_neg (fun hc => hno hc.1)]⟩

theorem restoreOne_eq_none {st : ThreadState b} {s : Scheduler b × Bool} (hs : s.1.Resumes st)
    (hcount : (s.1.thread st.tid).suspendCount = 0) (n : ℕ) : restoreOne n s st = none := by
  obtain ⟨hwe, hopen, hlive, hresume⟩ := hs
  have hsame := SameCounts.writeBack st st.tid s.1
  rw [restoreOne_eq, Scheduler.openThreadHandle_eq_some.mpr ⟨hopen, hlive, rfl⟩]
  simp only [hwe, Bool.not_true, Bool.false_eq_true, if_false]
  apply resumeLoop_eq_none
  · rw [hsame.fails]
    exact hresume
  · rw [hsame.count]
    exact hcount

theorem restoreOne_afterEntry {st : ThreadState b} {s : Scheduler b × Bool}
    (hlt : (s.1.thread st.tid).suspendCount < 2 ^ 32)
    (hpos : s.1.Resumes st → 0 < (s.1.thread st.tid).suspendCount) :
    ∃ s', Yields (fun n => restoreOne n s st) s' ∧ AfterEntry st s.1 s'.1 := by
  simp only [restoreOne_eq]
  cases hopen : s.1.openThreadHandle st.tid with
  | none =>
    have hno : ¬ s.1.Resumes st := by
      rintro ⟨-, ho, hlive, -⟩
      rw [Scheduler.openThreadHandle_eq_some.mpr ⟨ho, hlive, rfl⟩] at hopen
      cases hopen
    exact ⟨_, .const _, (SameCounts.refl s.1).afterEntry hno⟩
  | some th =>
    obtain ⟨ho, hlive, rfl⟩ := Scheduler.openThreadHandle_eq_some.mp hopen
    have hsame := SameCounts.writeBack st st.tid s.1
    cases hwe : st.weSuspended with
    | false =>
      have hno : ¬ s.1.Resumes st := fun h => by simp [h.1] at hwe
      exact ⟨_, .const _, hsame.afterEntry hno⟩
    | true =>
      simp only [Bool.not_true, Bool.false_eq_true, if_false]
      cases hresume : s.1.fails (.resumeThread st.tid) with
      | true =>
        have hno : ¬ s.1.Resumes st := fun h => by simp [h.2.2.2] at hresume
        have hpass : resumePass st.tid (st.writeBack st.tid s.1, s.2) =
            .done (st.writeBack st.tid s.1, false) := by
          simp [resumePass, Scheduler.resumeThread, hsame.fails, hresume]
        have hend : Ends (fun _ s => some (resumePass st.tid s)) (st.writeBack st.tid s.1, s.2)
            (st.writeBack st.tid s.1, false) := .done (by rw [hpass]; exact .const _)
        exact ⟨_, hend.yields, hsame.afterEntry hno⟩
      | false =>
        have hs : s.1.Resumes st := ⟨hwe, ho, hlive, hresume⟩
        obtain ⟨k, hk⟩ : ∃ k, (s.1.thread st.tid).suspendCount = k + 1 :=
          ⟨_, (Nat.succ_pred_eq_of_pos (hpos hs)).symm⟩
        have hresume' : (st.writeBack st.tid s.1).fails (.resumeThread st.tid) = false := by
          rw [hsame.fails]
          exact hresume
        have hend := resumeLoop_ends s.2 (hk ▸ hlt) hresume' ((hsame.count st.tid).trans hk)
        refine ⟨_, hend.yields, hsame.fails, hsame.snapshot, fun tid => ?_⟩
        by_cases htid : tid = st.tid
        · subst htid
          simp [hs]
        · simp [htid, hsame.count]

/-! ## All entries -/

theorem AfterEntry.resumes {st : ThreadState b} {sys sys' : Scheduler b}
    (h : AfterEntry st sys sys') (x : ThreadState b) : sys'.Resumes x ↔ sys.Resumes x := by
  unfold Scheduler.Resumes Scheduler.live
  rw [h.fails, h.snapshot]

theorem AfterEntry.restorable_iff {st : ThreadState b} {states : List (ThreadState b)}
    {sys sys' : Scheduler b} (h : AfterEntry st sys sys')
    (hpos : sys.Resumes st → 0 < (sys.thread st.tid).suspendCount) :
    Restorable sys' states ↔ Restorable sys (st :: states) := by
  have hfilter : states.filter (sys'.Resumes ·) = states.filter (sys.Resumes ·) :=
    List.filter_congr (fun x _ => decide_eq_decide.mpr (h.resumes x))
  unfold Restorable
  rw [hfilter, List.forall_mem_cons]
  by_cases hs : sys.Resumes st
  · -- the thread of `st` runs now, so no later entry may resume it
    rw [List.filter_cons_of_pos (by simpa using hs), List.map_cons, List.nodup_cons]
    have hcount : ∀ x : ThreadState b, 0 < (sys'.thread x.tid).suspendCount ↔
        x.tid ≠ st.tid ∧ 0 < (sys.thread x.tid).suspendCount := by
      intro x
      rw [h.count x.tid]
      by_cases hx : x.tid = st.tid
      · simp [hs, hx]
      · simp [hx]
    simp only [h.resumes, hcount, List.mem_map, List.mem_filter, decide_eq_true_eq, not_exists,
      not_and, and_imp]
    constructor
    · rintro ⟨hrest, hnodup⟩
      exact ⟨⟨hpos, fun x hx hr => (hrest x hx hr).2⟩, fun x hx hr => (hrest x hx hr).1, hnodup⟩
    · rintro ⟨⟨-, hrest⟩, hfresh, hnodup⟩
      exact ⟨fun x hx hr => ⟨hfresh x hx hr, hrest x hx hr⟩, hnodup⟩
  · rw [List.filter_cons_of_neg (by simpa using hs)]
    have hcount : ∀ tid, (sys'.thread tid).suspendCount = (sys.thread tid).suspendCount := by
      intro tid
      rw [h.count tid, if_neg (fun hc => hs hc.1)]
    simp only [h.resumes, hcount]
    exact ⟨fun hrest => ⟨⟨hpos, hrest.1⟩, hrest.2⟩, fun hrest => ⟨hrest.1.2, hrest.2⟩⟩

/-- The loop over the entries ends exactly when none meets a running thread. -/
theorem restoreEach_yields_iff {states : List (ThreadState b)} {s : Scheduler b × Bool}
    (hlt : ∀ tid, (s.1.thread tid).suspendCount < 2 ^ 32) :
    (∃ r, Yields (fun n => states.foldlM (restoreOne n) s) r) ↔ Restorable s.1 states := by
  induction states generalizing s with
  | nil => exact iff_of_true ⟨s, .const s⟩ ⟨by simp, by simp⟩
  | cons st states ih =>
    simp only [List.foldlM_cons]
    by_cases hpos : s.1.Resumes st → 0 < (s.1.thread st.tid).suspendCount
    · obtain ⟨s', hyields, hafter⟩ := restoreOne_afterEntry (hlt st.tid) hpos
      have hlt' : ∀ tid, (s'.1.thread tid).suspendCount < 2 ^ 32 := by
        intro tid
        rw [hafter.count tid]
        split_ifs
        · decide
        · exact hlt tid
      rw [← hafter.restorable_iff hpos, ← ih hlt']
      constructor
      · rintro ⟨r, hr⟩
        exact ⟨r, hyields.of_bind hr⟩
      · rintro ⟨r, hr⟩
        exact ⟨r, hyields.bind hr⟩
    · rw [Classical.not_imp, Nat.not_lt, Nat.le_zero] at hpos
      have hnone : ∀ n, (restoreOne n s st).bind
          (fun s' => states.foldlM (restoreOne n) s') = none := by
        intro n
        rw [restoreOne_eq_none hpos.1 hpos.2, Option.bind_none]
      refine iff_of_false ?_ ?_
      · rintro ⟨r, hr⟩
        exact Yields.not_of_none hnone r hr
      · intro hrest
        have hcount := hrest.1 st List.mem_cons_self hpos.1
        omega

/-- `restore` returns exactly when its object is invalid, or every thread that an
entry resumes is suspended and named by one such entry only. -/
theorem restore_ends_iff {b : Build} (fz : Freezer) (states : List (ThreadState b))
    (sys : Scheduler b) (hlt : ∀ tid, (sys.thread tid).suspendCount < 2 ^ 32) :
    (∃ r, Yields (fun n => fz.restore n states sys) r) ↔
      fz.isValid = false ∨ Restorable sys states := by
  unfold Freezer.restore
  cases hvalid : fz.isValid with
  | false => exact iff_of_true ⟨_, .const _⟩ (Or.inl rfl)
  | true =>
    simp only [Bool.not_true, Bool.false_eq_true, if_false, reduceCtorEq, false_or]
    exact restoreEach_yields_iff hlt

theorem restore_ends_iff_suspended :
    let sys : Scheduler .x64 := .ofThreads [7, 8] (by decide) (fun tid => if tid = 7 then 3 else 0)
    let states : List (ThreadState .x64) := [.record 7 (sys.thread 7)]
    (∃ r, Yields (fun n => (⟨4, 1⟩ : Freezer).restore n states sys) r) ↔
      (⟨4, 1⟩ : Freezer).isValid = false ∨ Restorable sys states := by
  intro sys states
  refine restore_ends_iff _ _ _ (fun tid => ?_)
  change (if tid = 7 then 3 else 0) < 2 ^ 32
  split_ifs <;> decide

/-- Thread 7 runs: the entry that names it is never done. -/
theorem restore_running_thread :
    let sys : Scheduler .x64 := .ofThreads [7] (by decide) (fun _ => 0)
    let states : List (ThreadState .x64) := [.record 7 (sys.thread 7)]
    ¬ ∃ r, Yields (fun n => (⟨4, 1⟩ : Freezer).restore n states sys) r := by
  rintro sys states ⟨r, hr⟩
  have hs : sys.Resumes (.record 7 (sys.thread 7)) := by decide
  have hnone : ∀ n, (⟨4, 1⟩ : Freezer).restore n states sys = none := by
    intro n
    have hone : restoreOne n (sys, true) (.record 7 (sys.thread 7)) = none :=
      restoreOne_eq_none hs rfl n
    change (restoreOne n (sys, true) (.record 7 (sys.thread 7))).bind some = none
    rw [hone, Option.bind_none]
  exact Yields.not_of_none hnone r hr

end RoboDbg
