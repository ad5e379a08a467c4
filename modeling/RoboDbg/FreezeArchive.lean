import RoboDbg.FreezerCsv
import RoboDbg.RestoreEnds

/-!
# Freezing across a file

The states that `suspend` returns are written to a file, and read and restored
later, by another object and on a system that has gone on meanwhile: threads have
ended, new ones have their ids, and priorities, affinities and suspend counts have
changed. The restored threads have the settings of the freeze all the same, except
where a call is refused.
-/

namespace RoboDbg

open Loops

variable {b : Build}

/-! ## What the file keeps -/

/-- What `suspend` records of a thread; a value that cannot be read has its default. -/
def Scheduler.recorded (sys : Scheduler b) (tid : DWORD) : ThreadState b where
  tid := tid
  dynPriority :=
    if sys.fails (.getThreadPriority tid) then THREAD_PRIORITY_NORMAL
    else (sys.thread tid).priority
  boostDisabled :=
    if sys.fails (.getThreadPriorityBoost tid) then 0
    else if (sys.thread tid).boostDisabled then 1 else 0
  groupAffinity :=
    if sys.fails (.getThreadGroupAffinity tid) then .zero else (sys.thread tid).groupAffinity
  prevSuspendCount := BitVec.ofNat 32 (sys.thread tid).suspendCount
  weSuspended := true

namespace ThreadState

/-- The fields that a line of the file keeps, with the values they are read as. -/
def archived (st : ThreadState b) : ThreadState b :=
  { st with
    boostDisabled := if st.boostDisabled ≠ 0 then 1 else 0
    groupAffinity := ⟨st.groupAffinity.Mask, st.groupAffinity.Group, 0, 0, 0⟩ }

theorem archived_exportable (st : ThreadState b) : st.archived.Exportable := by
  refine ⟨?_, rfl⟩
  unfold archived
  split_ifs
  · exact Or.inr rfl
  · exact Or.inl rfl

theorem csvLine_archived (st : ThreadState b) : csvLine st.archived = csvLine st := by
  unfold csvLine archived
  by_cases h : st.boostDisabled = 0
  · simp only [h, ne_eq, not_true_eq_false, if_false]
  · simp only [h, ne_eq, not_false_eq_true, if_true]
    rfl

end ThreadState

theorem csvText_archived (v : List (ThreadState b)) :
    csvText (v.map ThreadState.archived) = csvText v := by
  simp only [csvText, List.flatMap_map, ThreadState.csvLine_archived]

theorem csvStates_archived (v : List (ThreadState b)) :
    csvStates (csvText v) = v.map ThreadState.archived := by
  rw [← csvText_archived]
  apply csvStates_csvText
  intro st hst
  obtain ⟨st', -, rfl⟩ := List.mem_map.mp hst
  exact st'.archived_exportable

theorem importFromCSV_archived {v : List (ThreadState b)} {path : String} {files files' : Files}
    (hne : v ≠ []) (hwritten : (exportAsCSV v path files).1 = true)
    (hkept : files'.content path = (exportAsCSV v path files).2.content path) :
    importFromCSV path files' = some (v.map ThreadState.archived) := by
  have htext : files'.content path = some (csvText v) := by
    unfold exportAsCSV at hwritten hkept
    split_ifs at hwritten hkept
    rw [hkept]
    exact Function.update_self _ _ _
  have hempty : (v.map ThreadState.archived).isEmpty = false := by simpa using hne
  simp only [importFromCSV, htext, csvStates_archived, hempty, Bool.false_eq_true, if_false]

/-! ## Suspending when calls are refused -/

theorem suspendOne_recorded {sys : Scheduler b} {tid : DWORD} {st : ThreadState b}
    (h : (suspendOne tid sys).1 = some st) :
    suspendOne tid sys = (some (sys.recorded tid), sys.suspended tid) := by
  unfold suspendOne at h ⊢
  cases ho : sys.openThreadHandle tid with
  | none =>
    rw [ho] at h
    cases h
  | some th =>
    obtain ⟨-, -, rfl⟩ := Scheduler.openThreadHandle_eq_some.mp ho
    simp only [ho, Scheduler.suspendThread] at h ⊢
    split_ifs at h ⊢
    · have hpriority := (sys.thread th).priority.2
      simp only [Scheduler.recorded, Scheduler.getThreadPriority,
        Scheduler.getThreadPriorityBoost, Scheduler.getThreadGroupAffinity,
        Scheduler.withThread_fails, Scheduler.withThread_thread, Function.update_self,
        Scheduler.suspended]
      split_ifs
      all_goals first | rfl | contradiction

theorem Suspending.foldl_recorded {tids : List DWORD} (hnodup : tids.Nodup) {s : Suspending b}
    (h : (tids.foldl Suspending.next s).okAll = true) :
    (tids.foldl Suspending.next s).states = s.states ++ tids.map s.sys.recorded := by
  induction tids generalizing s with
  | nil => simp
  | cons tid tids ih =>
    obtain ⟨hnot, hnodup⟩ := List.nodup_cons.mp hnodup
    rw [List.foldl_cons] at h ⊢
    obtain ⟨-, st, hst⟩ := next_okAll (foldl_okAll h)
    have hnext : s.next tid =
        { s with
          states := s.states ++ [s.sys.recorded tid]
          sys := s.sys.suspended tid } := by
      simp only [Suspending.next, suspendOne_recorded hst]
    have hother : ∀ u ∈ tids, (s.sys.suspended tid).recorded u = s.sys.recorded u := by
      intro u hu
      have hne : u ≠ tid := fun he => hnot (he ▸ hu)
      have hthread : (s.sys.suspended tid).thread u = s.sys.thread u :=
        Function.update_of_ne hne _ _
      simp only [Scheduler.recorded, hthread]
      rfl
    rw [ih hnodup h, hnext, List.append_assoc, List.map_cons, List.singleton_append]
    congr 2
    exact List.map_congr_left hother

theorem Freezer.suspend_recorded {fz : Freezer} {sys sys' : Scheduler b}
    {states : List (ThreadState b)} (hs : fz.suspend sys = (some states, sys')) :
    states = (sys.threadsOf fz.pid_).map sys.recorded ∧ states ≠ [] := by
  have htids : fz.enumerateThreadIds sys = sys.threadsOf fz.pid_ := by
    unfold enumerateThreadIds RoboDbg.enumerateThreadIds
    split_ifs with hvalid hsnap
    · simp [suspend, enumerateThreadIds, RoboDbg.enumerateThreadIds, hvalid, hsnap,
        suspendListed] at hs
    · rfl
    · simp [suspend, enumerateThreadIds, hvalid, suspendListed] at hs
  rw [suspend, suspendListed, htids] at hs
  split_ifs at hs with hempty
  · cases hs
  · have hresult := congrArg Prod.fst hs
    obtain ⟨hok, rfl⟩ := Suspending.result_eq_some hresult
    have hstates := Suspending.foldl_recorded (sys.threadsOf_nodup fz.pid_) hok
    rw [List.nil_append] at hstates
    refine ⟨hstates, ?_⟩
    rw [hstates]
    simpa using hempty

/-! ## Restoring on another system -/

namespace Scheduler

def Opens (sys : Scheduler b) (tid : DWORD) : Prop :=
  sys.fails (.openThread tid) = false ∧ tid ∈ sys.live

instance (sys : Scheduler b) (tid : DWORD) : Decidable (sys.Opens tid) :=
  inferInstanceAs (Decidable (_ ∧ _))

/-- The thread of an entry afterwards: it runs, with the settings of the entry, but what
a refused call would have changed is as before. -/
def restored (sys : Scheduler b) (st : ThreadState b) : Schedule b where
  suspendCount :=
    if sys.fails (.resumeThread st.tid) then (sys.thread st.tid).suspendCount else 0
  priority :=
    if sys.fails (.setThreadPriority st.tid) then (sys.thread st.tid).priority
    else if hp : st.dynPriority ≠ THREAD_PRIORITY_ERROR_RETURN then ⟨st.dynPriority, hp⟩
    else (sys.thread st.tid).priority
  boostDisabled :=
    if sys.fails (.setThreadPriorityBoost st.tid) then (sys.thread st.tid).boostDisabled
    else st.boostDisabled ≠ 0
  groupAffinity :=
    if st.groupAffinity.Mask = 0 ∨ sys.fails (.setThreadGroupAffinity st.tid)
    then (sys.thread st.tid).groupAffinity else st.groupAffinity

variable {sys : Scheduler b}

theorem openThreadHandle_of_opens {tid : DWORD} (h : sys.Opens tid) :
    sys.openThreadHandle tid = some tid :=
  openThreadHandle_eq_some.mpr ⟨h.1, h.2, rfl⟩

theorem openThreadHandle_of_not_opens {tid : DWORD} (h : ¬ sys.Opens tid) :
    sys.openThreadHandle tid = none := by
  cases ho : sys.openThreadHandle tid with
  | none => rfl
  | some th =>
    obtain ⟨hopen, hlive, -⟩ := openThreadHandle_eq_some.mp ho
    exact absurd ⟨hopen, hlive⟩ h

theorem opens_of_frame {sys' : Scheduler b} (hfails : sys'.fails = sys.fails)
    (hsnap : sys'.snapshot = sys.snapshot) (tid : DWORD) : sys'.Opens tid ↔ sys.Opens tid := by
  unfold Opens live
  rw [hfails, hsnap]

theorem restored_of_frame {sys' : Scheduler b} {st : ThreadState b}
    (hfails : sys'.fails = sys.fails) (hthread : sys'.thread st.tid = sys.thread st.tid) :
    sys'.restored st = sys.restored st := by
  unfold restored
  rw [hfails, hthread]

end Scheduler

theorem ThreadState.writeBack_eq (st : ThreadState b) (sys : Scheduler b) :
    st.writeBack st.tid sys = sys.withThread st.tid
      { sys.restored st with suspendCount := (sys.thread st.tid).suspendCount } := by
  have haffinity : (if st.groupAffinity.Mask ≠ 0
      then sys.setThreadGroupAffinity st.tid st.groupAffinity else sys) =
      sys.withThread st.tid
        { sys.thread st.tid with groupAffinity := (sys.restored st).groupAffinity } := by
    dsimp only [Scheduler.setThreadGroupAffinity, Scheduler.restored]
    by_cases hmask : st.groupAffinity.Mask = 0
    · rw [if_neg (not_not.mpr hmask), if_pos (Or.inl hmask)]
      exact (sys.withThread_self st.tid).symm
    · rw [if_pos hmask]
      cases hfail : sys.fails (.setThreadGroupAffinity st.tid) with
      | true =>
        rw [if_pos rfl, if_pos (Or.inr rfl)]
        exact (sys.withThread_self st.tid).symm
      | false => rw [if_neg Bool.false_ne_true, if_neg (by simpa using hmask)]
  have hpriority : ∀ sys' : Scheduler b, sys'.fails = sys.fails →
      (sys'.thread st.tid).priority = (sys.thread st.tid).priority →
      sys'.setThreadPriority st.tid st.dynPriority = sys'.withThread st.tid
        { sys'.thread st.tid with priority := (sys.restored st).priority } := by
    intro sys' hfails hsame
    dsimp only [Scheduler.setThreadPriority, Scheduler.restored]
    rw [hfails]
    split_ifs
    · rw [← hsame]
      exact (sys'.withThread_self st.tid).symm
    · rfl
    · rw [← hsame]
      exact (sys'.withThread_self st.tid).symm
  have hboost : ∀ sys' : Scheduler b, sys'.fails = sys.fails →
      (sys'.thread st.tid).boostDisabled = (sys.thread st.tid).boostDisabled →
      sys'.setThreadPriorityBoost st.tid st.boostDisabled = sys'.withThread st.tid
        { sys'.thread st.tid with boostDisabled := (sys.restored st).boostDisabled } := by
    intro sys' hfails hsame
    dsimp only [Scheduler.setThreadPriorityBoost, Scheduler.restored]
    rw [hfails]
    split_ifs
    · rw [← hsame]
      exact (sys'.withThread_self st.tid).symm
    · rfl
  unfold ThreadState.writeBack
  dsimp only
  rw [haffinity, hpriority (sys.withThread _ _) rfl,
    hboost ((sys.withThread _ _).withThread _ _) rfl]
  · simp only [Scheduler.withThread_thread, Function.update_self, Scheduler.withThread_withThread]
  · simp only [Scheduler.withThread_thread, Function.update_self]
  · simp only [Scheduler.withThread_thread, Function.update_self]

theorem restoreOne_restored {sys : Scheduler b} {st : ThreadState b} (ok : Bool)
    (hopen : sys.Opens st.tid) (hwe : st.weSuspended = true)
    (hmax : (sys.thread st.tid).suspendCount < 2 ^ 32)
    (hpos : sys.fails (.resumeThread st.tid) = false → 0 < (sys.thread st.tid).suspendCount) :
    Yields (fun n => restoreOne n (sys, ok) st)
      (sys.withThread st.tid (sys.restored st),
        ok && !sys.fails (.resumeThread st.tid)) := by
  have hone : ∀ n, restoreOne n (sys, ok) st =
      resumeLoop n st.tid (st.writeBack st.tid sys, ok) := by
    intro n
    rw [restoreOne_eq, Scheduler.openThreadHandle_of_opens hopen]
    simp only [hwe, Bool.not_true, Bool.false_eq_true, if_false]
  have hcount : ((st.writeBack st.tid sys).thread st.tid).suspendCount =
      (sys.thread st.tid).suspendCount := (SameCounts.writeBack st st.tid sys).count st.tid
  have hfails : (st.writeBack st.tid sys).fails = sys.fails :=
    (SameCounts.writeBack st st.tid sys).fails
  simp only [hone]
  cases hresume : sys.fails (.resumeThread st.tid) with
  | true =>
    have hpass : resumePass st.tid (st.writeBack st.tid sys, ok) =
        .done (st.writeBack st.tid sys, false) := by
      simp [resumePass, Scheduler.resumeThread, hfails, hresume]
    have hsame : (sys.restored st).suspendCount = (sys.thread st.tid).suspendCount := by
      simp [Scheduler.restored, hresume]
    have hend : Ends (fun _ s => some (resumePass st.tid s)) (st.writeBack st.tid sys, ok)
        (st.writeBack st.tid sys, false) := .done (by rw [hpass]; exact .const _)
    rw [Bool.not_true, Bool.and_false]
    rw [st.writeBack_eq sys, ← hsame] at hend ⊢
    exact hend.yields
  | false =>
    obtain ⟨k, hk⟩ : ∃ k, (sys.thread st.tid).suspendCount = k + 1 :=
      ⟨_, (Nat.succ_pred_eq_of_pos (hpos hresume)).symm⟩
    have hresume' : (st.writeBack st.tid sys).fails (.resumeThread st.tid) = false := by
      rw [hfails]
      exact hresume
    have hend := resumeLoop_ends ok (hk ▸ hmax) hresume' (hcount.trans hk)
    have hzero : (sys.restored st).suspendCount = 0 := by simp [Scheduler.restored, hresume]
    have hlast : (st.writeBack st.tid sys).withThread st.tid
        { (st.writeBack st.tid sys).thread st.tid with suspendCount := 0 } =
        sys.withThread st.tid (sys.restored st) := by
      rw [st.writeBack_eq sys, Scheduler.withThread_withThread, Scheduler.withThread_thread,
        Function.update_self, ← hzero]
    rw [hlast] at hend
    rw [Bool.not_false, Bool.and_true]
    exact hend.yields

section Entries

/-! One entry for each of some threads, as `suspend` makes them. -/

variable {entry : DWORD → ThreadState b} (htid : ∀ tid, (entry tid).tid = tid)
  (hwe : ∀ tid, (entry tid).weSuspended = true)
include htid hwe

theorem restorable_map_iff {tids : List DWORD} (hnodup : tids.Nodup) (sys : Scheduler b) :
    Restorable sys (tids.map entry) ↔ ∀ tid ∈ tids, sys.Opens tid →
      sys.fails (.resumeThread tid) = false → 0 < (sys.thread tid).suspendCount := by
  have hresumes : ∀ tid, sys.Resumes (entry tid) ↔
      sys.Opens tid ∧ sys.fails (.resumeThread tid) = false := by
    intro tid
    unfold Scheduler.Resumes Scheduler.Opens
    rw [htid tid, hwe tid, and_assoc]
    exact and_iff_right rfl
  have hids : (tids.map entry).map (·.tid) = tids := by
    rw [List.map_map]
    exact (List.map_congr_left (fun tid _ => htid tid)).trans tids.map_id
  have honce : (((tids.map entry).filter (sys.Resumes ·)).map (·.tid)).Nodup := by
    refine List.Nodup.sublist (List.filter_sublist.map _) ?_
    rwa [hids]
  unfold Restorable
  rw [and_iff_left honce, List.forall_mem_map]
  simp only [hresumes, htid, and_imp]

/-- The entries restore the threads that can be opened, each as if it were alone. -/
theorem restoreEach_restored {tids : List DWORD} (hnodup : tids.Nodup) (ok : Bool)
    {sys : Scheduler b} (hmax : ∀ tid, (sys.thread tid).suspendCount < 2 ^ 32)
    (hpos : ∀ tid ∈ tids, sys.Opens tid → sys.fails (.resumeThread tid) = false →
      0 < (sys.thread tid).suspendCount) :
    ∃ r, Yields (fun n => (tids.map entry).foldlM (restoreOne n) (sys, ok)) r ∧
      r.1.fails = sys.fails ∧ r.1.snapshot = sys.snapshot ∧
      (r.2 = true ↔ ok = true ∧ ∀ tid ∈ tids, sys.Opens tid ∧
        sys.fails (.resumeThread tid) = false) ∧
      ∀ u, r.1.thread u =
        if u ∈ tids ∧ sys.Opens u then sys.restored (entry u) else sys.thread u := by
  induction tids generalizing sys ok with
  | nil => exact ⟨(sys, ok), .const _, rfl, rfl, by simp, by simp⟩
  | cons tid tids ih =>
    obtain ⟨hnot, hnodup⟩ := List.nodup_cons.mp hnodup
    have hne : ∀ u ∈ tids, u ≠ tid := fun u hu he => hnot (he ▸ hu)
    simp only [List.map_cons, List.foldlM_cons]
    by_cases hopen : sys.Opens tid
    · let sys₁ := sys.withThread tid (sys.restored (entry tid))
      have hother : ∀ u, u ≠ tid → sys₁.thread u = sys.thread u :=
        fun u hu => Function.update_of_ne hu _ _
      have hone := restoreOne_restored ok ((htid tid).symm ▸ hopen) (hwe tid)
        (hmax (entry tid).tid)
        (fun hresume => (htid tid).symm ▸ hpos tid List.mem_cons_self hopen
          (htid tid ▸ hresume))
      rw [htid tid] at hone
      have hmax₁ : ∀ u, (sys₁.thread u).suspendCount < 2 ^ 32 := by
        intro u
        by_cases hu : u = tid
        · subst hu
          have hcount : (sys₁.thread u).suspendCount = (sys.restored (entry u)).suspendCount :=
            congrArg Schedule.suspendCount (Function.update_self _ _ _)
          rw [hcount]
          dsimp only [Scheduler.restored]
          split_ifs
          · exact hmax _
          · decide
        · rw [hother u hu]
          exact hmax u
      obtain ⟨r, hyields, hfails, hsnap, hok, hthread⟩ := ih hnodup
        (ok && !sys.fails (.resumeThread tid)) hmax₁
        (fun u hu ho hresume => by
          rw [hother u (hne u hu)]
          exact hpos u (List.mem_cons_of_mem _ hu) ho hresume)
      refine ⟨r, hone.bind hyields, hfails, hsnap, ?_, fun u => ?_⟩
      · rw [hok, List.forall_mem_cons, Bool.and_eq_true, Bool.not_eq_true', and_assoc]
        exact and_congr_right' (and_congr (by simp [hopen]) Iff.rfl)
      · rw [hthread u]
        by_cases hu : u = tid
        · subst hu
          rw [if_neg (fun hc => hnot hc.1), if_pos ⟨List.mem_cons_self, hopen⟩]
          exact Function.update_self _ _ _
        · have hentry : sys₁.restored (entry u) = sys.restored (entry u) :=
            Scheduler.restored_of_frame rfl (by rw [htid u]; exact hother u hu)
          have hopens : sys₁.Opens u ↔ sys.Opens u := Scheduler.opens_of_frame rfl rfl u
          simp only [hentry, hopens, hother u hu, List.mem_cons, hu, false_or]
    · have hone : ∀ n, restoreOne n (sys, ok) (entry tid) = some (sys, false) := by
        intro n
        rw [restoreOne_eq, htid tid, Scheduler.openThreadHandle_of_not_opens hopen]
      obtain ⟨r, hyields, hfails, hsnap, hok, hthread⟩ := ih hnodup false hmax
        (fun u hu => hpos u (List.mem_cons_of_mem _ hu))
      refine ⟨r, ?_, hfails, hsnap, ?_, fun u => ?_⟩
      · simp only [hone]
        exact (Yields.const _).bind hyields
      · rw [hok, List.forall_mem_cons]
        simp [hopen]
      · rw [hthread u]
        by_cases hu : u = tid
        · subst hu
          rw [if_neg (fun hc => hnot hc.1), if_neg (fun hc => hopen hc.2)]
        · simp only [List.mem_cons, hu, false_or]

end Entries

/-- The states of a freeze come back from a file, and any valid object restores them on
any later system: it returns exactly if no thread that it has to resume runs. Then every
thread of the freeze that can be opened has the settings of the freeze and runs, up to
the calls that are refused, and all other threads are untouched. -/
theorem freeze_archived {b : Build} {fz fz' : Freezer} {sys sys₁ sys₂ : Scheduler b}
    {states : List (ThreadState b)} {path : String} {files files' : Files}
    (hs : fz.suspend sys = (some states, sys₁))
    (hwritten : (exportAsCSV states path files).1 = true)
    (hkept : files'.content path = (exportAsCSV states path files).2.content path)
    (hvalid : fz'.isValid = true)
    (hmax : ∀ tid, (sys₂.thread tid).suspendCount ≤ MAXIMUM_SUSPEND_COUNT) :
    ∃ imported, importFromCSV path files' = some imported ∧
      ((∃ r, Yields (fun n => fz'.restore n imported sys₂) r) ↔
        ∀ tid ∈ sys.threadsOf fz.pid_, sys₂.Opens tid →
          sys₂.fails (.resumeThread tid) = false → 0 < (sys₂.thread tid).suspendCount) ∧
      ∀ r, Yields (fun n => fz'.restore n imported sys₂) r →
        (r.2 = true ↔ ∀ tid ∈ sys.threadsOf fz.pid_, sys₂.Opens tid ∧
          sys₂.fails (.resumeThread tid) = false) ∧
        ∀ u, r.1.thread u = if u ∈ sys.threadsOf fz.pid_ ∧ sys₂.Opens u
          then sys₂.restored (sys.recorded u).archived else sys₂.thread u := by
  obtain ⟨rfl, hne⟩ := fz.suspend_recorded hs
  have hnodup := sys.threadsOf_nodup fz.pid_
  have hlt : ∀ tid, (sys₂.thread tid).suspendCount < 2 ^ 32 := by
    intro tid
    have hle := hmax tid
    unfold MAXIMUM_SUSPEND_COUNT at hle
    omega
  let entry : DWORD → ThreadState b := fun tid => (sys.recorded tid).archived
  have htid : ∀ tid, (entry tid).tid = tid := fun _ => rfl
  have hwe : ∀ tid, (entry tid).weSuspended = true := fun _ => rfl
  refine ⟨(sys.threadsOf fz.pid_).map entry, ?_, ?_, ?_⟩
  · rw [importFromCSV_archived hne hwritten hkept, List.map_map]
    rfl
  · simp only [Freezer.restore, hvalid, Bool.not_true, Bool.false_eq_true, if_false]
    rw [restoreEach_yields_iff (s := (sys₂, true)) hlt]
    exact restorable_map_iff htid hwe hnodup sys₂
  · intro r hr
    simp only [Freezer.restore, hvalid, Bool.not_true, Bool.false_eq_true, if_false] at hr
    have hpos := (restorable_map_iff htid hwe hnodup sys₂).mp
      ((restoreEach_yields_iff (s := (sys₂, true)) hlt).mp ⟨r, hr⟩)
    obtain ⟨r', hr', -, -, hok, hthread⟩ :=
      restoreEach_restored htid hwe hnodup true hlt hpos
    obtain rfl := hr.unique hr'
    exact ⟨hok.trans (and_iff_right rfl), hthread⟩

/-- Thread 8 has ended, and thread 7 has another priority, when the file is read. -/
theorem freeze_archived_later :
    let sys : Scheduler .x64 := .ofThreads [7, 8] (by decide) (fun _ => 0)
    let sys₂ : Scheduler .x64 :=
      (Scheduler.ofThreads [7, 9] (by decide) (fun _ => 1)).setThreadPriority 7 2
    let fz : Freezer := ⟨4, 1⟩
    let states := (fz.suspend sys).1.getD []
    let files := (exportAsCSV states "states.csv" ⟨fun _ => none, fun _ => true⟩).2
    ∃ imported, importFromCSV "states.csv" files = some imported ∧
      ((∃ r, Yields (fun n => fz.restore n imported sys₂) r) ↔
        ∀ tid ∈ sys.threadsOf fz.pid_, sys₂.Opens tid →
          sys₂.fails (.resumeThread tid) = false → 0 < (sys₂.thread tid).suspendCount) ∧
      ∀ r, Yields (fun n => fz.restore n imported sys₂) r →
        (r.2 = true ↔ ∀ tid ∈ sys.threadsOf fz.pid_, sys₂.Opens tid ∧
          sys₂.fails (.resumeThread tid) = false) ∧
        ∀ u, r.1.thread u = if u ∈ sys.threadsOf fz.pid_ ∧ sys₂.Opens u
          then sys₂.restored (sys.recorded u).archived else sys₂.thread u := by
  intro sys sys₂ fz states files
  have hs : fz.suspend sys = (some states, (fz.suspend sys).2) := rfl
  have hone : 1 ≤ MAXIMUM_SUSPEND_COUNT := by decide
  refine freeze_archived hs rfl rfl rfl (fun tid => ?_)
  change ((Scheduler.withThread _ _ _).thread tid).suspendCount ≤ _
  rw [Scheduler.withThread_thread, Function.update_apply]
  split_ifs
  · exact hone
  · exact hone

end RoboDbg
