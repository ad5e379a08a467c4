import RoboDbg.Freezer

/-!
# Freezing and restoring

`suspend` adds one to the suspend count of every thread of the process and
records each thread as it was. `restore` writes the record back, but its resume
loop ends at the count zero, whatever count was recorded.
-/

namespace RoboDbg

open Loops

variable {b : Build}

namespace Scheduler

variable {sys : Scheduler b} {tid : DWORD}

@[simp] theorem withThread_thread (sys : Scheduler b) (tid : DWORD) (s : Schedule b) :
    (sys.withThread tid s).thread = Function.update sys.thread tid s := rfl

@[simp] theorem withThread_snapshot (sys : Scheduler b) (tid : DWORD) (s : Schedule b) :
    (sys.withThread tid s).snapshot = sys.snapshot := rfl

@[simp] theorem withThread_fails (sys : Scheduler b) (tid : DWORD) (s : Schedule b) :
    (sys.withThread tid s).fails = sys.fails := rfl

@[simp] theorem withThread_self (sys : Scheduler b) (tid : DWORD) :
    sys.withThread tid (sys.thread tid) = sys := by
  simp [withThread]

@[simp] theorem withThread_withThread (sys : Scheduler b) (tid : DWORD) (s s' : Schedule b) :
    (sys.withThread tid s).withThread tid s' = sys.withThread tid s' := by
  simp [withThread]

def suspended (sys : Scheduler b) (tid : DWORD) : Scheduler b :=
  sys.withThread tid
    { sys.thread tid with suspendCount := (sys.thread tid).suspendCount + 1 }

theorem openThreadHandle_eq_some {th : DWORD} :
    sys.openThreadHandle tid = some th ↔
      sys.fails (.openThread tid) = false ∧ tid ∈ sys.live ∧ th = tid := by
  unfold openThreadHandle
  split_ifs with h
  · refine iff_of_false (by simp) (fun hc => ?_)
    rcases h with h | h
    · rw [hc.1] at h
      cases h
    · exact h hc.2.1
  · rw [not_or, not_not, Bool.not_eq_true] at h
    constructor
    · intro he
      exact ⟨h.1, h.2, (Option.some.inj he).symm⟩
    · rintro ⟨-, -, rfl⟩
      rfl

theorem Reliable.openThreadHandle (hr : sys.Reliable) (hl : tid ∈ sys.live) :
    sys.openThreadHandle tid = some tid :=
  openThreadHandle_eq_some.mpr ⟨hr _, hl, rfl⟩

theorem mem_live_of_mem_threadsOf {pid : DWORD} (h : tid ∈ sys.threadsOf pid) :
    tid ∈ sys.live := by
  obtain ⟨te, hte, rfl⟩ := List.mem_map.mp h
  exact List.mem_map_of_mem (List.mem_of_mem_filter hte)

theorem threadsOf_nodup (sys : Scheduler b) (pid : DWORD) : (sys.threadsOf pid).Nodup :=
  sys.distinct.sublist (List.filter_sublist.map _)

end Scheduler

/-! ## One thread -/

theorem suspendOne_cases (tid : DWORD) (sys : Scheduler b) :
    suspendOne tid sys = (none, sys) ∨
      ∃ st : ThreadState b, suspendOne tid sys = (some st, sys.suspended tid) ∧ st.tid = tid ∧
        tid ∈ sys.live ∧ (sys.thread tid).suspendCount < MAXIMUM_SUSPEND_COUNT := by
  unfold suspendOne
  cases ho : sys.openThreadHandle tid with
  | none => exact Or.inl rfl
  | some th =>
    obtain ⟨-, hlive, rfl⟩ := Scheduler.openThreadHandle_eq_some.mp ho
    simp only [Scheduler.suspendThread]
    split_ifs with h
    · exact Or.inl rfl
    · rw [not_or, not_le] at h
      exact Or.inr ⟨_, rfl, rfl, hlive, h.2⟩

def ThreadState.record (tid : DWORD) (s : Schedule b) : ThreadState b where
  tid := tid
  dynPriority := s.priority
  boostDisabled := if s.boostDisabled then 1 else 0
  groupAffinity := s.groupAffinity
  prevSuspendCount := BitVec.ofNat 32 s.suspendCount
  weSuspended := true

theorem suspendOne_reliable {sys : Scheduler b} (hr : sys.Reliable) {tid : DWORD}
    {st : ThreadState b} (h : (suspendOne tid sys).1 = some st) :
    suspendOne tid sys = (some (.record tid (sys.thread tid)), sys.suspended tid) := by
  unfold suspendOne at h ⊢
  cases ho : sys.openThreadHandle tid with
  | none =>
    rw [ho] at h
    cases h
  | some th =>
    obtain ⟨-, -, rfl⟩ := Scheduler.openThreadHandle_eq_some.mp ho
    simp only [ho, Scheduler.suspendThread] at h ⊢
    split_ifs at h ⊢
    · simp only [Scheduler.getThreadPriority, Scheduler.getThreadPriorityBoost,
        Scheduler.getThreadGroupAffinity, Scheduler.withThread_fails, hr _, Bool.false_eq_true,
        if_false, Scheduler.withThread_thread, Function.update_self, Option.getD_some]
      rw [if_neg (sys.thread th).priority.2]
      rfl

theorem resumeLoop_ends {th : DWORD} (ok : Bool) {k : ℕ} (hk : k + 1 < 2 ^ 32)
    {sys : Scheduler b} (hresume : sys.fails (.resumeThread th) = false)
    (hcount : (sys.thread th).suspendCount = k + 1) :
    Ends (fun _ s => some (resumePass th s)) (sys, ok)
      (sys.withThread th { sys.thread th with suspendCount := 0 }, ok) := by
  induction k generalizing sys with
  | zero =>
    have hpass : resumePass th (sys, ok) =
        .done (sys.withThread th { sys.thread th with suspendCount := 0 }, ok) := by
      simp [resumePass, Scheduler.resumeThread, hresume, hcount]
    refine .done ?_
    rw [hpass]
    exact .const _
  | succ k ih =>
    let sys₁ := sys.withThread th { sys.thread th with suspendCount := k + 1 }
    have hne : BitVec.ofNat 32 (k + 1 + 1) ≠ 1 := by
      intro he
      have hnat := congrArg BitVec.toNat he
      rw [BitVec.toNat_ofNat, Nat.mod_eq_of_lt hk] at hnat
      simp at hnat
    have hpass : resumePass th (sys, ok) = .again (sys₁, ok) := by
      simp only [resumePass, Scheduler.resumeThread, hresume, hcount, Bool.false_eq_true, if_false,
        if_neg hne]
      rfl
    have hcount₁ : (sys₁.thread th).suspendCount = k + 1 := by simp [sys₁]
    have hresume₁ : sys₁.fails (.resumeThread th) = false := hresume
    have hend := ih (by omega) hresume₁ hcount₁
    have hsame : sys₁.withThread th { sys₁.thread th with suspendCount := 0 } =
        sys.withThread th { sys.thread th with suspendCount := 0 } := by simp [sys₁]
    rw [hsame] at hend
    refine .again ?_ hend
    rw [hpass]
    exact .const _

theorem restoreOne_yields (ok : Bool) {sys : Scheduler b} (hr : sys.Reliable) {tid : DWORD}
    (hl : tid ∈ sys.live) {s : Schedule b}
    (hs : sys.thread tid = { s with suspendCount := s.suspendCount + 1 })
    (hmax : s.suspendCount < MAXIMUM_SUSPEND_COUNT) :
    Yields (fun n => restoreOne n (sys, ok) (.record tid s))
      (sys.withThread tid { s with suspendCount := 0 }, ok) := by
  have haffinity : sys.setThreadGroupAffinity tid s.groupAffinity = sys := by
    have hself : { sys.thread tid with groupAffinity := s.groupAffinity } = sys.thread tid := by
      rw [hs]
    simp only [Scheduler.setThreadGroupAffinity, hr _, Bool.false_eq_true, if_false, hself,
      Scheduler.withThread_self]
  have hpriority : sys.setThreadPriority tid s.priority = sys := by
    have hself : { sys.thread tid with priority := s.priority } = sys.thread tid := by rw [hs]
    simp only [Scheduler.setThreadPriority, hr _, Bool.false_eq_true, if_false,
      dif_pos s.priority.2]
    exact (congrArg (sys.withThread tid) hself).trans (sys.withThread_self tid)
  have hboost : sys.setThreadPriorityBoost tid (if s.boostDisabled then 1 else 0) = sys := by
    have hself : { sys.thread tid with boostDisabled := s.boostDisabled } = sys.thread tid := by
      rw [hs]
    have hbool : decide ((if s.boostDisabled then (1 : BOOL) else 0) ≠ 0) = s.boostDisabled := by
      cases s.boostDisabled <;> rfl
    simp only [Scheduler.setThreadPriorityBoost, hr _, Bool.false_eq_true, if_false, hbool, hself,
      Scheduler.withThread_self]
  have hone : ∀ n, restoreOne n (sys, ok) (.record tid s) = resumeLoop n tid (sys, ok) := by
    intro n
    simp only [restoreOne, ThreadState.record, hr.openThreadHandle hl, haffinity, ite_self,
      hpriority, hboost, Bool.not_true, Bool.false_eq_true, if_false]
  have hcount : (sys.thread tid).suspendCount = s.suspendCount + 1 := by rw [hs]
  have hlt : s.suspendCount + 1 < 2 ^ 32 := by
    unfold MAXIMUM_SUSPEND_COUNT at hmax
    omega
  have hend := (resumeLoop_ends ok hlt (hr _) hcount).yields
  rw [hs] at hend
  simp only [hone]
  exact hend

/-! ## All threads of the process -/

theorem Suspending.next_okAll {s : Suspending b} {tid : DWORD} (h : (s.next tid).okAll = true) :
    s.okAll = true ∧ ∃ st, (suspendOne tid s.sys).1 = some st := by
  cases hst : (suspendOne tid s.sys).1 with
  | none =>
    simp [next, hst] at h
  | some st =>
    simp only [next, hst] at h
    exact ⟨h, st, rfl⟩

theorem Suspending.foldl_okAll {tids : List DWORD} {s : Suspending b}
    (h : (tids.foldl Suspending.next s).okAll = true) : s.okAll = true := by
  induction tids generalizing s with
  | nil => exact h
  | cons tid tids ih => exact (next_okAll (ih h)).1

theorem Suspending.next_reliable {s : Suspending b} (hr : s.sys.Reliable) {tid : DWORD}
    (h : (s.next tid).okAll = true) :
    (s.sys.thread tid).suspendCount < MAXIMUM_SUSPEND_COUNT ∧ s.next tid =
      { s with
        states := s.states ++ [.record tid (s.sys.thread tid)]
        sys := s.sys.suspended tid } := by
  obtain ⟨-, st, hst⟩ := next_okAll h
  constructor
  · rcases suspendOne_cases tid s.sys with hno | ⟨-, -, -, -, hlt⟩
    · rw [hno] at hst
      cases hst
    · exact hlt
  · simp only [Suspending.next, suspendOne_reliable hr hst]

theorem Suspending.foldl_reliable {tids : List DWORD} (hnodup : tids.Nodup) {s : Suspending b}
    (hr : s.sys.Reliable) (h : (tids.foldl Suspending.next s).okAll = true) :
    let s' := tids.foldl Suspending.next s
    s'.states = s.states ++ tids.map (fun tid => .record tid (s.sys.thread tid)) ∧
      s'.sys.fails = s.sys.fails ∧ s'.sys.snapshot = s.sys.snapshot ∧
      (∀ tid ∈ tids, (s.sys.thread tid).suspendCount < MAXIMUM_SUSPEND_COUNT) ∧
      ∀ u, s'.sys.thread u = if u ∈ tids
        then { s.sys.thread u with suspendCount := (s.sys.thread u).suspendCount + 1 }
        else s.sys.thread u := by
  induction tids generalizing s with
  | nil => simp
  | cons tid tids ih =>
    obtain ⟨hnot, hnodup⟩ := List.nodup_cons.mp hnodup
    rw [List.foldl_cons] at h ⊢
    obtain ⟨hmax, hnext⟩ := next_reliable hr (foldl_okAll h)
    have hother : ∀ u ∈ tids, (s.sys.suspended tid).thread u = s.sys.thread u := by
      intro u hu
      have hne : u ≠ tid := fun he => hnot (he ▸ hu)
      exact Function.update_of_ne hne _ _
    rw [hnext] at h ⊢
    obtain ⟨hstates, hfails, hsnap, hcounts, hthread⟩ := ih hnodup
      (s := { s with
        states := s.states ++ [.record tid (s.sys.thread tid)]
        sys := s.sys.suspended tid }) hr h
    refine ⟨?_, hfails, hsnap, ?_, ?_⟩
    · rw [hstates, List.append_assoc, List.map_cons, List.singleton_append]
      congr 2
      exact List.map_congr_left (fun u hu => by rw [hother u hu])
    · intro u hu
      rcases List.mem_cons.mp hu with rfl | hu
      · exact hmax
      · rw [← hother u hu]
        exact hcounts u hu
    · intro u
      rw [hthread u]
      by_cases hut : u = tid
      · rw [hut, if_neg hnot, if_pos List.mem_cons_self]
        exact Function.update_self _ _ _
      · have hsame : (s.sys.suspended tid).thread u = s.sys.thread u :=
          Function.update_of_ne hut _ _
        simp only [hsame, List.mem_cons, hut, false_or]

theorem restoreEach_yields {tids : List DWORD} (hnodup : tids.Nodup) (ok : Bool)
    {sys : Scheduler b} (hr : sys.Reliable) (hl : ∀ tid ∈ tids, tid ∈ sys.live)
    {before : DWORD → Schedule b}
    (hs : ∀ tid ∈ tids, sys.thread tid =
      { before tid with suspendCount := (before tid).suspendCount + 1 })
    (hmax : ∀ tid ∈ tids, (before tid).suspendCount < MAXIMUM_SUSPEND_COUNT) :
    ∃ sys', Yields (fun n => (tids.map (fun tid => .record tid (before tid))).foldlM
        (restoreOne n) (sys, ok)) (sys', ok) ∧
      ∀ u, sys'.thread u = if u ∈ tids then { before u with suspendCount := 0 }
        else sys.thread u := by
  induction tids generalizing sys with
  | nil => exact ⟨sys, .const _, by simp⟩
  | cons tid tids ih =>
    obtain ⟨hnot, hnodup⟩ := List.nodup_cons.mp hnodup
    let sys₁ := sys.withThread tid { before tid with suspendCount := 0 }
    have hother : ∀ u, u ≠ tid → sys₁.thread u = sys.thread u :=
      fun u hne => Function.update_of_ne hne _ _
    have hone := restoreOne_yields ok hr (hl tid List.mem_cons_self) (hs tid List.mem_cons_self)
      (hmax tid List.mem_cons_self)
    have hr₁ : sys₁.Reliable := hr
    obtain ⟨sys', hyields, hthread⟩ := ih hnodup hr₁
      (fun u hu => hl u (List.mem_cons_of_mem _ hu))
      (fun u hu => by
        rw [hother u (fun he => hnot (he ▸ hu))]
        exact hs u (List.mem_cons_of_mem _ hu))
      (fun u hu => hmax u (List.mem_cons_of_mem _ hu))
    refine ⟨sys', ?_, fun u => ?_⟩
    · simp only [List.map_cons, List.foldlM_cons]
      exact hone.bind hyields
    · rw [hthread u]
      by_cases hut : u = tid
      · rw [hut, if_neg hnot, if_pos List.mem_cons_self]
        exact Function.update_self _ _ _
      · simp only [hother u hut, List.mem_cons, hut, false_or]

theorem enumerateThreadIds_eq {sys : Scheduler b} (hr : sys.Reliable) (pid : DWORD) :
    enumerateThreadIds sys pid = sys.threadsOf pid := by
  simp only [enumerateThreadIds, hr _, Bool.false_eq_true, if_false]

theorem Suspending.result_eq_some {s : Suspending b} {states : List (ThreadState b)}
    (h : s.result = some states) : s.okAll = true ∧ s.states = states := by
  unfold result at h
  split_ifs at h with hno
  simp only [Bool.or_eq_true, Bool.not_eq_true', not_or, Bool.not_eq_false] at hno
  exact ⟨hno.1, Option.some.inj h⟩

/-- A `suspend` that returns states has recorded every thread of the process and raised
its suspend count by one. -/
theorem Freezer.suspend_eq_some {fz : Freezer} {sys sys' : Scheduler b}
    {states : List (ThreadState b)} (hr : sys.Reliable)
    (hs : fz.suspend sys = (some states, sys')) :
    fz.isValid = true ∧ sys'.Reliable ∧ sys'.live = sys.live ∧
      states = (sys.threadsOf fz.pid_).map (fun tid => .record tid (sys.thread tid)) ∧
      (∀ tid ∈ sys.threadsOf fz.pid_,
        (sys.thread tid).suspendCount < MAXIMUM_SUSPEND_COUNT) ∧
      ∀ u, sys'.thread u = if u ∈ sys.threadsOf fz.pid_
        then { sys.thread u with suspendCount := (sys.thread u).suspendCount + 1 }
        else sys.thread u := by
  have hvalid : fz.isValid = true := by
    by_contra hno
    simp [suspend, enumerateThreadIds, hno, suspendListed] at hs
  have htids : fz.enumerateThreadIds sys = sys.threadsOf fz.pid_ := by
    rw [enumerateThreadIds, if_pos hvalid]
    exact enumerateThreadIds_eq hr fz.pid_
  let s : Suspending b := ⟨[], true, sys⟩
  let s' := (sys.threadsOf fz.pid_).foldl Suspending.next s
  have hloop : s'.result = some states ∧ s'.sys = sys' := by
    rw [suspend, suspendListed, htids] at hs
    split_ifs at hs
    · cases hs
    · exact Prod.mk.injEq .. ▸ hs
  obtain ⟨hresult, rfl⟩ := hloop
  obtain ⟨hok, rfl⟩ := Suspending.result_eq_some hresult
  have hs₀ : s.sys.Reliable := hr
  obtain ⟨hrecords, hfails, hsnap, hmax, hthread⟩ :=
    Suspending.foldl_reliable (sys.threadsOf_nodup fz.pid_) hs₀ hok
  refine ⟨hvalid, fun c => ?_, ?_, hrecords, hmax, hthread⟩
  · exact (congrFun hfails c).trans (hr c)
  · exact congrArg (List.map (·.th32ThreadID)) hsnap

/-- Restoring what `suspend` returned ends with every thread of the process at the
suspend count zero. -/
theorem Freezer.restore_of_suspend {fz : Freezer} {sys sys' : Scheduler b}
    {states : List (ThreadState b)} (hr : sys.Reliable)
    (hs : fz.suspend sys = (some states, sys')) :
    ∃ r, Yields (fun n => fz.restore n states sys') r ∧
      ∀ tid, r.1.thread tid = if tid ∈ sys.threadsOf fz.pid_
        then { sys.thread tid with suspendCount := 0 } else sys.thread tid := by
  obtain ⟨hvalid, hr', hlive, rfl, hmax, hcounts⟩ := fz.suspend_eq_some hr hs
  have hlive' : ∀ tid ∈ sys.threadsOf fz.pid_, tid ∈ sys'.live := by
    intro tid htid
    rw [hlive]
    exact Scheduler.mem_live_of_mem_threadsOf htid
  have hsuspended : ∀ tid ∈ sys.threadsOf fz.pid_, sys'.thread tid =
      { sys.thread tid with suspendCount := (sys.thread tid).suspendCount + 1 } := by
    intro tid htid
    rw [hcounts tid, if_pos htid]
  obtain ⟨sys'', hyields, hafter⟩ :=
    restoreEach_yields (sys.threadsOf_nodup fz.pid_) true hr' hlive' hsuspended hmax
  refine ⟨(sys'', true), ?_, fun tid => ?_⟩
  · simp only [restore, hvalid, Bool.not_true, Bool.false_eq_true, if_false]
    exact hyields
  · rw [hafter tid, hcounts tid]
    split_ifs
    · rfl
    · rfl

/-- Restoring what `suspend` returned ends, and leaves every thread as it was
before, exactly if no thread of the process was suspended before. -/
theorem freeze_undone_iff {b : Build} {fz : Freezer} {sys sys' : Scheduler b}
    {states : List (ThreadState b)} (hr : sys.Reliable)
    (hs : fz.suspend sys = (some states, sys')) :
    (∃ r, Yields (fun n => fz.restore n states sys') r ∧
        ∀ tid, r.1.thread tid = sys.thread tid) ↔
      ∀ tid ∈ sys.threadsOf fz.pid_, (sys.thread tid).suspendCount = 0 := by
  obtain ⟨r, hr', hthread⟩ := fz.restore_of_suspend hr hs
  constructor
  · rintro ⟨r', hr'', hsame⟩ tid htid
    obtain rfl : r' = r := hr''.unique hr'
    have hzero := hthread tid
    rw [if_pos htid, hsame tid] at hzero
    rw [hzero]
  · intro hrunning
    refine ⟨r, hr', fun tid => ?_⟩
    rw [hthread tid]
    split_ifs with htid
    · rw [← hrunning tid htid]
    · rfl

def Scheduler.ofThreads (tids : List DWORD) (hnodup : tids.Nodup) (counts : DWORD → ℕ) :
    Scheduler b where
  snapshot := tids.map (fun tid => ⟨1, tid⟩)
  distinct := by simpa [Function.comp_def] using hnodup
  thread tid := ⟨counts tid, ⟨THREAD_PRIORITY_NORMAL, by decide⟩, false, 1, 0, 0, 0, 0⟩
  fails _ := false

theorem freeze_undone_iff_running :
    let sys : Scheduler .x64 := .ofThreads [7, 8] (by decide) (fun _ => 0)
    let fz : Freezer := ⟨4, 1⟩
    let r := fz.suspend sys
    (∃ r', Yields (fun n => fz.restore n (r.1.getD []) r.2) r' ∧
        ∀ tid, r'.1.thread tid = sys.thread tid) ↔
      ∀ tid ∈ sys.threadsOf fz.pid_, (sys.thread tid).suspendCount = 0 :=
  freeze_undone_iff (fun _ => rfl) rfl

/-- Thread 8 was suspended once before, and `restore` sets it running. -/
theorem parked_thread_resumed :
    let sys : Scheduler .x64 := .ofThreads [7, 8] (by decide) (fun tid => if tid = 8 then 1 else 0)
    let fz : Freezer := ⟨4, 1⟩
    let r := fz.suspend sys
    sys.Reliable ∧ r.1.isSome = true ∧
      ¬ ∃ r', Yields (fun n => fz.restore n (r.1.getD []) r.2) r' ∧
        ∀ tid, r'.1.thread tid = sys.thread tid := by
  intro sys fz r
  have hr : sys.Reliable := fun _ => rfl
  refine ⟨hr, rfl, ?_⟩
  rintro ⟨r', hr', hsame⟩
  have hs : fz.suspend sys = (some (r.1.getD []), r.2) := rfl
  obtain ⟨r'', hr'', hthread⟩ := fz.restore_of_suspend hr hs
  obtain rfl : r' = r'' := hr'.unique hr''
  have hafter := congrArg Schedule.suspendCount ((hsame 8).symm.trans (hthread 8))
  revert hafter
  decide

end RoboDbg
