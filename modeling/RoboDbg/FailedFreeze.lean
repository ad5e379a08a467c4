import RoboDbg.FreezeRestore

/-!
# What a failed freeze leaves behind

A pass that cannot suspend its thread only clears `okAll`: the loop goes on, and
the threads that were suspended before and after it stay suspended. Their
records are dropped with the verdict at the end.
-/

namespace RoboDbg

variable {b : Build}

def Scheduler.Suspendable (sys : Scheduler b) (tid : DWORD) : Prop :=
  sys.fails (.openThread tid) = false ∧ tid ∈ sys.live ∧
    sys.fails (.suspendThread tid) = false ∧
    (sys.thread tid).suspendCount < MAXIMUM_SUSPEND_COUNT

instance (sys : Scheduler b) (tid : DWORD) : Decidable (sys.Suspendable tid) :=
  inferInstanceAs (Decidable (_ ∧ _ ∧ _ ∧ _))

theorem suspendOne_of_suspendable {sys : Scheduler b} {tid : DWORD} (h : sys.Suspendable tid) :
    ∃ st : ThreadState b, suspendOne tid sys = (some st, sys.suspended tid) := by
  obtain ⟨hopen, hlive, hsus, hmax⟩ := h
  unfold suspendOne
  rw [Scheduler.openThreadHandle_eq_some.mpr ⟨hopen, hlive, rfl⟩]
  have hok : ¬ (sys.fails (.suspendThread tid) = true ∨
      MAXIMUM_SUSPEND_COUNT ≤ (sys.thread tid).suspendCount) := by
    rw [hsus, not_or, not_le]
    exact ⟨by simp, hmax⟩
  simp only [Scheduler.suspendThread, if_neg hok]
  exact ⟨_, rfl⟩

theorem suspendOne_of_not_suspendable {sys : Scheduler b} {tid : DWORD}
    (h : ¬ sys.Suspendable tid) : suspendOne tid sys = (none, sys) := by
  unfold suspendOne
  cases ho : sys.openThreadHandle tid with
  | none => rfl
  | some th =>
    obtain ⟨hopen, hlive, rfl⟩ := Scheduler.openThreadHandle_eq_some.mp ho
    have hno : sys.fails (.suspendThread th) = true ∨
        MAXIMUM_SUSPEND_COUNT ≤ (sys.thread th).suspendCount := by
      by_contra hc
      rw [not_or, not_le, Bool.not_eq_true] at hc
      exact h ⟨hopen, hlive, hc⟩
    simp only [Scheduler.suspendThread, if_pos hno]

namespace Suspending

theorem next_cases (s : Suspending b) (tid : DWORD) :
    (s.sys.Suspendable tid ∧ ∃ st, s.next tid =
        { s with states := s.states ++ [st], sys := s.sys.suspended tid }) ∨
      (¬ s.sys.Suspendable tid ∧ s.next tid = { s with okAll := false }) := by
  by_cases h : s.sys.Suspendable tid
  · obtain ⟨st, hst⟩ := suspendOne_of_suspendable h
    exact Or.inl ⟨h, st, by simp only [next, hst]⟩
  · exact Or.inr ⟨h, by simp only [next, suspendOne_of_not_suspendable h]⟩

theorem next_okAll_iff (s : Suspending b) (tid : DWORD) :
    (s.next tid).okAll = true ↔ s.okAll = true ∧ s.sys.Suspendable tid := by
  rcases s.next_cases tid with ⟨h, st, hnext⟩ | ⟨h, hnext⟩
  · simp [hnext, h]
  · simp [hnext, h]

theorem next_states_iff (s : Suspending b) (tid : DWORD) :
    (s.next tid).states = [] ↔ s.states = [] ∧ ¬ s.sys.Suspendable tid := by
  rcases s.next_cases tid with ⟨h, st, hnext⟩ | ⟨h, hnext⟩
  · simp [hnext, h]
  · simp [hnext, h]

theorem next_count (s : Suspending b) (tid u : DWORD) :
    ((s.next tid).sys.thread u).suspendCount = (s.sys.thread u).suspendCount +
      if u = tid ∧ s.sys.Suspendable tid then 1 else 0 := by
  rcases s.next_cases tid with ⟨h, st, hnext⟩ | ⟨h, hnext⟩
  · by_cases hu : u = tid
    · subst hu
      simp [hnext, h, Scheduler.suspended]
    · simp [hnext, hu, Scheduler.suspended]
  · simp [hnext, h]

theorem next_suspendable (s : Suspending b) {tid u : DWORD} (hne : u ≠ tid) :
    (s.next tid).sys.Suspendable u ↔ s.sys.Suspendable u := by
  rcases s.next_cases tid with ⟨h, st, hnext⟩ | ⟨h, hnext⟩
  · have hthread : (s.sys.suspended tid).thread u = s.sys.thread u :=
      Function.update_of_ne hne _ _
    rw [hnext]
    unfold Scheduler.Suspendable
    rw [hthread]
    rfl
  · rw [hnext]

/-- The whole loop: every listed thread that can be suspended has been, `okAll`
stands if all could, and something is recorded if any could. -/
theorem foldl_next {tids : List DWORD} (hnodup : tids.Nodup) (s : Suspending b) :
    ((tids.foldl next s).okAll = true ↔
        s.okAll = true ∧ ∀ tid ∈ tids, s.sys.Suspendable tid) ∧
      ((tids.foldl next s).states = [] ↔
        s.states = [] ∧ ∀ tid ∈ tids, ¬ s.sys.Suspendable tid) ∧
      ∀ u, ((tids.foldl next s).sys.thread u).suspendCount = (s.sys.thread u).suspendCount +
        if u ∈ tids ∧ s.sys.Suspendable u then 1 else 0 := by
  induction tids generalizing s with
  | nil => simp
  | cons tid tids ih =>
    obtain ⟨hnot, hnodup⟩ := List.nodup_cons.mp hnodup
    obtain ⟨hok, hstates, hcount⟩ := ih hnodup (s.next tid)
    have hsame : ∀ u ∈ tids, ((s.next tid).sys.Suspendable u ↔ s.sys.Suspendable u) :=
      fun u hu => s.next_suspendable (fun he => hnot (he ▸ hu))
    refine ⟨?_, ?_, fun u => ?_⟩
    · rw [List.foldl_cons, hok, next_okAll_iff, List.forall_mem_cons, and_assoc]
      exact and_congr_right' (and_congr_right' (forall₂_congr hsame))
    · rw [List.foldl_cons, hstates, next_states_iff, List.forall_mem_cons, and_assoc]
      exact and_congr_right' (and_congr_right' (forall₂_congr (fun u hu => not_congr (hsame u hu))))
    · rw [List.foldl_cons, hcount, next_count, add_assoc]
      congr 1
      by_cases hu : u = tid
      · subst hu
        simp [hnot]
      · by_cases hmem : u ∈ tids
        · simp [hu, hmem, hsame u hmem]
        · simp [hu, hmem]

end Suspending

def AllOrNone (tids : List DWORD) (sys : Scheduler b) : Prop :=
  (∀ tid ∈ tids, sys.Suspendable tid) ∨ ∀ tid ∈ tids, ¬ sys.Suspendable tid

theorem Suspending.result_eq_none (s : Suspending b) :
    s.result = none ↔ s.okAll = false ∨ s.states = [] := by
  unfold result
  cases s.okAll <;> cases s.states <;> simp

theorem suspendListed_none_iff {tids : List DWORD} (hnodup : tids.Nodup) (sys : Scheduler b) :
    ((suspendListed tids sys).1 = none → ∀ tid ∈ tids,
        ((suspendListed tids sys).2.thread tid).suspendCount = (sys.thread tid).suspendCount) ↔
      AllOrNone tids sys := by
  unfold suspendListed
  by_cases hempty : tids = []
  · subst hempty
    simp [AllOrNone]
  have hne : ¬ tids.isEmpty = true := by simpa using hempty
  obtain ⟨hok, hstates, hcount⟩ := Suspending.foldl_next hnodup ⟨[], true, sys⟩
  simp only [if_neg hne, Suspending.result_eq_none]
  constructor
  · intro hsame
    by_cases hall : ∀ tid ∈ tids, sys.Suspendable tid
    · exact Or.inl hall
    · right
      intro tid htid hs
      have hfailed : (tids.foldl Suspending.next ⟨[], true, sys⟩).okAll = false := by
        rw [← Bool.not_eq_true, hok]
        exact fun h => hall h.2
      have hraised := hcount tid
      rw [hsame (Or.inl hfailed) tid htid, if_pos ⟨htid, hs⟩] at hraised
      exact Nat.succ_ne_self _ hraised.symm
  · rintro (hall | hno) hnone
    · exfalso
      obtain ⟨tid, htid⟩ := List.exists_mem_of_ne_nil tids hempty
      rcases hnone with hnone | hnone
      · rw [hok.mpr ⟨rfl, hall⟩] at hnone
        cases hnone
      · exact (hstates.mp hnone).2 tid htid (hall tid htid)
    · intro tid htid
      rw [hcount tid, if_neg (fun h => hno tid htid h.2), Nat.add_zero]

/-- A list without the process's threads comes from a pass that never starts. -/
theorem suspendListed_nil (sys : Scheduler b) : suspendListed [] sys = (none, sys) := rfl

theorem suspendByPID_none_iff (pid : DWORD) (sys : Scheduler b) :
    ((suspendByPID pid sys).1 = none → ∀ tid ∈ sys.threadsOf pid,
        ((suspendByPID pid sys).2.thread tid).suspendCount = (sys.thread tid).suspendCount) ↔
      AllOrNone (enumerateThreadIds sys pid) sys := by
  unfold suspendByPID enumerateThreadIds
  split_ifs
  · simp [suspendListed_nil, AllOrNone]
  · exact suspendListed_none_iff (sys.threadsOf_nodup pid) sys

theorem Freezer.suspend_none_iff (fz : Freezer) (sys : Scheduler b) :
    ((fz.suspend sys).1 = none → ∀ tid ∈ sys.threadsOf fz.pid_,
        ((fz.suspend sys).2.thread tid).suspendCount = (sys.thread tid).suspendCount) ↔
      AllOrNone (fz.enumerateThreadIds sys) sys := by
  unfold Freezer.suspend Freezer.enumerateThreadIds
  split_ifs
  · exact suspendByPID_none_iff fz.pid_ sys
  · simp [suspendListed_nil, AllOrNone]

/-- A freeze that fails leaves all suspend counts as they were exactly when the
threads listed can all be suspended, or none can. -/
theorem failed_freeze_unchanged_iff {b : Build} (fz : Freezer) (pid : DWORD) (sys : Scheduler b) :
    (((fz.suspend sys).1 = none → ∀ tid ∈ sys.threadsOf fz.pid_,
        ((fz.suspend sys).2.thread tid).suspendCount = (sys.thread tid).suspendCount) ↔
      AllOrNone (fz.enumerateThreadIds sys) sys) ∧
    (((suspendByPID pid sys).1 = none → ∀ tid ∈ sys.threadsOf pid,
        ((suspendByPID pid sys).2.thread tid).suspendCount = (sys.thread tid).suspendCount) ↔
      AllOrNone (enumerateThreadIds sys pid) sys) :=
  ⟨fz.suspend_none_iff sys, suspendByPID_none_iff pid sys⟩

/-- Thread 8 cannot be opened: `suspend` fails and thread 7 stays suspended. -/
theorem failed_freeze_suspends :
    let sys : Scheduler .x64 := { Scheduler.ofThreads [7, 8] (by decide) (fun _ => 0) with
      fails := fun c => c = .openThread 8 }
    let fz : Freezer := ⟨4, 1⟩
    ¬ ((fz.suspend sys).1 = none → ∀ tid ∈ sys.threadsOf fz.pid_,
      ((fz.suspend sys).2.thread tid).suspendCount = (sys.thread tid).suspendCount) := by
  intro sys fz h
  have hseven := h (by decide +kernel) 7 (by decide)
  revert hseven
  decide +kernel

end RoboDbg
