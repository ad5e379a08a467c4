import RoboDbg.Session

/-!
# Which process an object debugs

`start` and the two `attach` functions make the object the debugger of a process,
`detach` and the exit of the process end this. Each of them writes some of
`hProcessGlobal`, `debuggedPid` and `dbgLoop` only. The members agree with the
system as long as each call finds those that it does not write as they should be.
-/

namespace RoboDbg

open Debugger Runs

variable {b : Build}

/-- A session with the process that it ought to be debugging: the one of the last
`start` or `attach`, if that returned 0, until a `detach` succeeds or the process exits. -/
structure Followed (b : Build) where
  session : Session b
  target : Option DWORD

namespace Followed

def after (w : Followed b) (m : Move b) : Followed b where
  session := w.session.after m
  target :=
    match m with
    | .start exeName =>
      if (w.session.start exeName).2 = 0 then some w.session.sys.nextProcessId else none
    | .startWith exeName args =>
      if (w.session.startWith exeName args).2 = 0 then some w.session.sys.nextProcessId else none
    | .attach pid => if (w.session.attach pid).2 = 0 then some pid else none
    | .attachName exeName =>
      if (w.session.attachName exeName).2 = 0 then some (Util.findProcessId exeName w.session.sys)
      else none
    | .detach => if w.session.detach.2 then none else w.target
    | .exit => if w.session.detach.2 then none else w.target
    | .answer _ =>
      match w.session.phase with
      | .callback (.EXIT_PROCESS _ dwProcessId) _ _ =>
        if w.target = some dwProcessId then none else w.target
      | _ => w.target
    | _ => w.target

/-- The object is the debugger of exactly the process that it ought to be, and all
members are those of this process. -/
structure InStep (w : Followed b) : Prop where
  debugged : ∀ pid, pid ∈ w.session.sys.debugged ↔ w.target = some pid
  hProcessGlobal : ∀ pid, w.target = some pid →
    w.session.sys.handles.lookup w.session.hProcessGlobal = some pid
  debuggedPid : ∀ pid, w.target = some pid → w.session.debuggedPid = pid
  dbgLoop : ∀ pid, w.target = some pid → w.session.dbg.dbgLoop = true

end Followed

def FollowedStep (w : Followed b) (m : Move b) (w' : Followed b) : Prop :=
  w.session.Allows m ∧ w' = w.after m

namespace Session

/-- Nothing is debugged; and if a process is created, `debuggedPid` holds its id by chance
and no `detach` has cleared `dbgLoop`. -/
def StartKeeps (commandLine : Text) (s : Session b) : Prop :=
  s.sys.debugged = ∅ ∧ (s.sys.fails (.createProcessA commandLine) = true ∨
    s.debuggedPid = s.sys.nextProcessId ∧ s.dbg.dbgLoop = true)

/-- Nothing is debugged; and if the process gets a debugger, it can be opened and no
`detach` has cleared `dbgLoop`. -/
def AttachKeeps (pid : DWORD) (s : Session b) : Prop :=
  s.sys.debugged = ∅ ∧ (pid = 0 ∨ s.sys.fails (.debugActiveProcess pid) = true ∨
    s.sys.fails (.openProcess pid) = false ∧ s.dbg.dbgLoop = true)

def KeepsStep (s : Session b) : Move b → Prop
  | .start exeName => s.StartKeeps exeName
  | .startWith exeName args => s.StartKeeps (commandLine exeName args)
  | .attach pid => s.AttachKeeps pid
  | .attachName exeName => s.AttachKeeps (Util.findProcessId exeName s.sys)
  | .waitFails => s.sys.debugged = ∅
  | .injectDLL _ _ => s.sys.debugged = ∅ ∨ ¬ s.InjectionFails
  | _ => True

end Session

namespace Followed

variable {w : Followed b} {s : Session b}

theorem InStep.empty_iff (h : w.InStep) : w.session.sys.debugged = ∅ ↔ w.target = none := by
  rw [Finset.eq_empty_iff_forall_notMem, Option.eq_none_iff_forall_ne_some]
  exact forall_congr' (fun pid => not_congr (h.debugged pid))

theorem inStep_none_iff : InStep ⟨s, none⟩ ↔ s.sys.debugged = ∅ := by
  constructor
  · exact fun h => h.empty_iff.mpr rfl
  · intro h
    refine ⟨fun pid => ?_, ?_, ?_, ?_⟩
    · simp [h]
    all_goals exact fun _ hpid => by cases hpid

theorem inStep_some_iff {pid : DWORD} : InStep ⟨s, some pid⟩ ↔ s.sys.debugged = {pid} ∧
    s.sys.handles.lookup s.hProcessGlobal = some pid ∧ s.debuggedPid = pid ∧
      s.dbg.dbgLoop = true := by
  constructor
  · intro h
    refine ⟨?_, h.hProcessGlobal pid rfl, h.debuggedPid pid rfl, h.dbgLoop pid rfl⟩
    ext q
    rw [h.debugged q, Finset.mem_singleton, Option.some.injEq, eq_comm]
  · rintro ⟨hdebugged, hhandle, hpid, hloop⟩
    refine ⟨fun q => ?_, ?_, ?_, ?_⟩
    · change q ∈ s.sys.debugged ↔ some pid = some q
      rw [hdebugged, Finset.mem_singleton, Option.some.injEq, eq_comm]
    all_goals rintro q hq
    all_goals cases hq
    · exact hhandle
    · exact hpid
    · exact hloop

theorem InStep.of_same (h : w.InStep) (hdebugged : s.sys.debugged = w.session.sys.debugged)
    (hhandle : s.sys.handles.lookup s.hProcessGlobal =
      w.session.sys.handles.lookup w.session.hProcessGlobal)
    (hpid : s.debuggedPid = w.session.debuggedPid)
    (hloop : s.dbg.dbgLoop = w.session.dbg.dbgLoop) : InStep ⟨s, w.target⟩ := by
  refine ⟨?_, ?_, ?_, ?_⟩
  · change ∀ pid, pid ∈ s.sys.debugged ↔ _
    rw [hdebugged]
    exact h.debugged
  · change ∀ pid, _ → s.sys.handles.lookup s.hProcessGlobal = some pid
    rw [hhandle]
    exact h.hProcessGlobal
  · change ∀ pid, _ → s.debuggedPid = pid
    rw [hpid]
    exact h.debuggedPid
  · change ∀ pid, _ → s.dbg.dbgLoop = true
    rw [hloop]
    exact h.dbgLoop

/-! ## Start and attach -/

theorem insert_eq_singleton_iff {pid : DWORD} {pids : Finset DWORD} (h : pid ∉ pids) :
    insert pid pids = {pid} ↔ pids = ∅ := by
  constructor
  · intro heq
    rw [Finset.eq_empty_iff_forall_notMem]
    intro q hq
    have hmem : q ∈ ({pid} : Finset DWORD) := heq ▸ Finset.mem_insert_of_mem hq
    rw [Finset.mem_singleton] at hmem
    exact h (hmem ▸ hq)
  · rintro rfl
    rfl

theorem startProcess_iff (s : Session b) (commandLine : Text) :
    InStep ⟨(s.startProcess commandLine).1,
        if (s.startProcess commandLine).2 = 0 then some s.sys.nextProcessId else none⟩ ↔
      s.StartKeeps commandLine := by
  unfold Session.StartKeeps
  by_cases hrefused : s.sys.fails (.createProcessA commandLine) = true ∨
      s.sys.nextProcessId ∈ s.sys.debugged
  · have hstart : s.startProcess commandLine = (s, -1) := by
      simp only [Session.startProcess, Processes.createProcessA, if_pos hrefused]
    rw [hstart]
    refine inStep_none_iff.trans (and_iff_left_of_imp (fun hempty => ?_)).symm
    left
    rw [hempty] at hrefused
    simpa using hrefused
  · let handles := s.sys.handles.insert s.sys.nextProcessId
    have hstart : s.startProcess commandLine =
        ({ s with
          hProcessGlobal := s.sys.handles.next
          hThreadGlobal := handles.next
          sys := { s.sys with
            debugged := insert s.sys.nextProcessId s.sys.debugged
            handles := handles.insert s.sys.nextThreadId }
          uses := [] }, 0) := by
      simp only [Session.startProcess, Processes.createProcessA, if_neg hrefused]
      rfl
    have hlookup : (handles.insert s.sys.nextThreadId).lookup s.sys.handles.next =
        some s.sys.nextProcessId :=
      HandleTable.extends_insert _ _ _ _ (HandleTable.lookup_insert_next _ _)
    rw [not_or] at hrefused
    rw [hstart]
    refine inStep_some_iff.trans ?_
    change insert _ _ = _ ∧ _ ∧ _ = _ ∧ _ = true ↔ _
    rw [insert_eq_singleton_iff hrefused.2, or_iff_right hrefused.1]
    exact and_congr_right (fun _ => and_iff_right hlookup)

theorem attach_iff (s : Session b) (pid : DWORD) :
    InStep ⟨(s.attach pid).1, if (s.attach pid).2 = 0 then some pid else none⟩ ↔
      s.AttachKeeps pid := by
  unfold Session.AttachKeeps
  obtain ⟨hrefused, hattach⟩ | ⟨hzero, hallowed, hnew, ⟨hopen, hattach⟩ | ⟨hopen, hattach⟩⟩ :=
    s.attach_cases pid
  · rw [hattach]
    refine inStep_none_iff.trans (and_iff_left_of_imp (fun hempty => ?_)).symm
    rcases hrefused with hzero | hfails | hmem
    · exact Or.inl hzero
    · exact Or.inr (Or.inl hfails)
    · rw [hempty] at hmem
      exact absurd hmem (Finset.notMem_empty pid)
  · rw [hattach]
    refine inStep_none_iff.trans (iff_of_false (Finset.insert_ne_empty _ _) ?_)
    rintro ⟨-, hzero' | hfails | ⟨hopened, -⟩⟩
    · exact hzero hzero'
    · rw [hallowed] at hfails
      cases hfails
    · rw [hopen] at hopened
      cases hopened
  · rw [hattach]
    refine inStep_some_iff.trans ?_
    change insert _ _ = _ ∧ _ ∧ pid = pid ∧ _ = true ↔ _
    rw [insert_eq_singleton_iff hnew, or_iff_right hzero, hallowed, hopen]
    simp

theorem InStep.erase_target (h : w.InStep) {pid : DWORD} (htarget : w.target = some pid) :
    w.session.sys.debugged.erase pid = ∅ := by
  apply Finset.eq_empty_iff_forall_notMem.mpr
  intro q hq
  obtain ⟨hne, hmem⟩ := Finset.mem_erase.mp hq
  rw [h.debugged q, htarget, Option.some.injEq] at hmem
  exact hne hmem.symm

/-! ## Detach and exit -/

/-- Only the process that is to be debugged can be released. -/
theorem InStep.detach (h : w.InStep) :
    InStep ⟨w.session.detach.1, if w.session.detach.2 then none else w.target⟩ := by
  rcases w.session.detach_cases with ⟨hsucceeds, hdetach⟩ | ⟨-, hdetach⟩
  · have htarget : w.target = some w.session.debuggedPid := (h.debugged _).mp hsucceeds.1
    rw [hdetach]
    exact inStep_none_iff.mpr (h.erase_target htarget)
  · rw [hdetach]
    exact h

theorem InStep.exit (h : w.InStep) :
    InStep ⟨w.session.exit.1, if w.session.detach.2 then none else w.target⟩ := by
  have hdetach := h.detach
  cases hok : w.session.detach.2 with
  | false =>
    have hexit : w.session.exit.1 = w.session.detach.1 := by simp [Session.exit, hok]
    rw [hexit]
    rwa [hok] at hdetach
  | true =>
    rw [hok] at hdetach
    refine inStep_none_iff.mpr ?_
    rw [w.session.exit_same.2]
    exact inStep_none_iff.mp hdetach

/-! ## The moves that close the handle -/

theorem InStep.closed_iff (h : w.InStep) (hdebugged : s.sys.debugged = w.session.sys.debugged)
    (hclosed : s.sys.handles.lookup s.hProcessGlobal = none) :
    InStep ⟨s, w.target⟩ ↔ w.session.sys.debugged = ∅ := by
  rw [← hdebugged]
  cases htarget : w.target with
  | none => exact inStep_none_iff
  | some pid =>
    refine iff_of_false (fun h' => ?_) (fun hempty => ?_)
    · have hopen := h'.hProcessGlobal pid rfl
      rw [hclosed] at hopen
      cases hopen
    · rw [hdebugged, h.empty_iff, htarget] at hempty
      cases hempty

theorem leave_closed (s : Session b) :
    s.leave.sys.handles.lookup s.leave.hProcessGlobal = none := by
  cases hl : s.leave.sys.handles.lookup s.leave.hProcessGlobal with
  | none => rfl
  | some pid =>
    have hclosed : (s.sys.handles.close s.hProcessGlobal).lookup s.hProcessGlobal = some pid :=
      HandleTable.lookup_of_lookup_close hl
    rw [HandleTable.lookup_close_self] at hclosed
    cases hclosed

theorem InStep.leave_iff (h : w.InStep) :
    InStep ⟨w.session.leave, w.target⟩ ↔ w.session.sys.debugged = ∅ :=
  h.closed_iff rfl (leave_closed _)

theorem InStep.injectDLL_iff (h : w.InStep) (pDllPath : LPVOID b) (dllPath : Text) :
    InStep ⟨(w.session.injectDLL pDllPath dllPath).1, w.target⟩ ↔
      w.session.sys.debugged = ∅ ∨ ¬ w.session.InjectionFails := by
  obtain ⟨hnull, hsame⟩ | ⟨hfails, n, os, hclosed⟩ | ⟨hnull, hok, n, os, hpassed⟩ :=
    w.session.injectDLL_cases pDllPath dllPath
  · rw [hsame]
    exact iff_of_true h (Or.inr (fun hfails => hfails.1 hnull))
  · rw [hclosed, Session.passTimes_eq, or_iff_left (not_not.mpr hfails)]
    exact h.closed_iff rfl (HandleTable.lookup_close_self _ _)
  · rw [hpassed, Session.passTimes_eq]
    exact iff_of_true (h.of_same rfl rfl rfl rfl) (Or.inr hok)

/-! ## The rounds of the loop -/

theorem passIf_cases (passes : Bool) (s : Session b) : s.passIf passes = s ∨
    s.passIf passes = s.pass := by
  cases passes with
  | false => exact Or.inl rfl
  | true => exact Or.inr rfl

theorem InStep.of_dbg (h : w.InStep) (passes : Bool) (phase : Phase b) {d : Debugger b}
    (hloop : d.dbgLoop = w.session.dbg.dbgLoop) :
    InStep ⟨{ w.session.passIf passes with dbg := d, phase := phase }, w.target⟩ := by
  rcases passIf_cases passes w.session with heq | heq
  · rw [heq]
    exact h.of_same rfl rfl rfl hloop
  · rw [heq]
    exact h.of_same rfl rfl rfl hloop

theorem InStep.event (h : w.InStep) (ev : DebugEvent b) :
    InStep ⟨w.session.event ev, w.target⟩ :=
  h.of_dbg _ _ (arrive_edits (P := fun _ _ => True) ev (fun _ => trivial)).dbgLoop

theorem InStep.operate (h : w.InStep) (op : Operation b) :
    InStep ⟨w.session.operate op, w.target⟩ :=
  h.of_dbg _ _ (op.run_edits (P := fun _ _ => True) w.session.dbg (fun _ _ => trivial)).dbgLoop

theorem InStep.exited (h : w.InStep) (pid : DWORD) :
    InStep ⟨{ w.session with sys := w.session.sys.exited pid },
      if w.target = some pid then none else w.target⟩ := by
  by_cases htarget : w.target = some pid
  · rw [if_pos htarget]
    exact inStep_none_iff.mpr (h.erase_target htarget)
  · rw [if_neg htarget]
    have hnot : pid ∉ w.session.sys.debugged := fun hmem => htarget ((h.debugged pid).mp hmem)
    exact h.of_same (Finset.erase_eq_of_notMem hnot) rfl rfl rfl

theorem InStep.answer (h : w.InStep) (bpType : BreakpointAction) :
    (w.after (.answer bpType)).InStep := by
  unfold Followed.after
  simp only [Session.after, Session.answer]
  cases w.session.phase with
  | outside => exact h
  | waiting => exact h
  | callback ev hThread c =>
    have hloop : (complete ev hThread c bpType { w.session.dbg with
        trace := w.session.dbg.trace ++ [(c, bpType)] }).dbgLoop = w.session.dbg.dbgLoop :=
      (complete_edits (P := fun _ _ => True) ev c bpType).dbgLoop
    have hcompleted := h.of_dbg (completePasses ev c bpType) .waiting hloop
    cases ev with
    | EXIT_PROCESS dwExitCode pid => exact (h.of_dbg _ .outside hloop).exited pid
    | _ => exact hcompleted

theorem InStep.step (h : w.InStep) {m : Move b} (hallowed : w.session.Allows m) :
    (w.after m).InStep ↔ w.session.KeepsStep m := by
  cases m with
  | start exeName => exact startProcess_iff _ _
  | startWith exeName args => exact startProcess_iff _ _
  | attach pid => exact attach_iff _ _
  | attachName exeName => exact attach_iff _ _
  | loop => exact iff_of_true (h.of_same rfl rfl rfl rfl) trivial
  | detach => exact iff_of_true h.detach trivial
  | exit => exact iff_of_true h.exit trivial
  | injectDLL pDllPath dllPath => exact h.injectDLL_iff pDllPath dllPath
  | operation op => exact iff_of_true (h.operate op) trivial
  | memory os => exact iff_of_true (h.of_same rfl rfl rfl rfl) trivial
  | event ev => exact iff_of_true (h.event ev) trivial
  | answer bpType => exact iff_of_true (h.answer bpType) trivial
  | waitFails => exact h.leave_iff
  | leave =>
    refine iff_of_true (h.leave_iff.mpr (h.empty_iff.mpr ?_)) trivial
    obtain ⟨-, hstopped⟩ := hallowed
    rw [Option.eq_none_iff_forall_ne_some]
    intro pid hpid
    rw [h.dbgLoop pid hpid] at hstopped
    cases hstopped
  | debuggee os => exact iff_of_true (h.of_same rfl rfl rfl rfl) trivial
  | system sys => exact iff_of_true (h.of_same hallowed.1 hallowed.2 rfl rfl) trivial

end Followed

open Followed

/-- In every run in which each call finds the members as it needs them, the object debugs
the process of its last successful call and all members are those of this process; and from
every state of such a run, the next move keeps it so exactly if it finds them so. -/
theorem lifecycle_in_step {b : Build} {w w' : Followed b} {moves : List (Move b)}
    (hstart : w.InStep)
    (hrun : Run (Restrict FollowedStep (fun w => w.session.KeepsStep)) w moves w') :
    w'.InStep ∧ ∀ m w'', FollowedStep w' m w'' → (w''.InStep ↔ w'.session.KeepsStep m) := by
  have hinv : w'.InStep := by
    apply hrun.invariant ?_ hstart
    rintro w m w' h ⟨⟨hallowed, rfl⟩, hkeeps⟩
    exact (h.step hallowed).mpr hkeeps
  refine ⟨hinv, ?_⟩
  rintro m w'' ⟨hallowed, rfl⟩
  exact hinv.step hallowed

/-- A constructed object whose `debuggedPid` happens to be 0, and no process to debug. -/
def Followed.fresh (sys : Processes) : Followed .x64 :=
  ⟨.ofDebugger (.new (.ofCode (fun _ => 0x90) [])) 0 sys, none⟩

theorem lifecycle_in_step_attach :
    let w := (Followed.fresh (.idle 9 [])).after (.attach 7)
    w.InStep ∧ ∀ m w'', FollowedStep w m w'' → (w''.InStep ↔ w.session.KeepsStep m) := by
  let w₀ := Followed.fresh (.idle 9 [])
  have hattach : w₀.session.AttachKeeps 7 := ⟨rfl, Or.inr (Or.inr ⟨rfl, rfl⟩)⟩
  have hstep : Restrict FollowedStep (fun w => w.session.KeepsStep) w₀ (.attach 7)
      (w₀.after (.attach 7)) := ⟨⟨rfl, rfl⟩, hattach⟩
  exact lifecycle_in_step (inStep_none_iff.mpr rfl) (.single hstep)

/-- `start` does not set `debuggedPid`; an `attach` that cannot open the process returns -1
and leaves it attached; after a `detach` the next `attach` finds `dbgLoop` cleared. -/
theorem lifecycle_out_of_step :
    let started := Followed.fresh (.idle 9 [])
    let refused := Followed.fresh (.idle 9 [.openProcess 7])
    let again := Followed.fresh (.idle 9 [])
    (∃ w, Run FollowedStep started [.start (literal "a.exe")] w ∧ ¬ w.InStep) ∧
      (∃ w, Run FollowedStep refused [.attach 7] w ∧ ¬ w.InStep) ∧
      ∃ w, Run FollowedStep again [.attach 7, .detach, .attach 7] w ∧ ¬ w.InStep := by
  intro started refused again
  refine ⟨⟨_, .single ⟨rfl, rfl⟩, fun h => ?_⟩, ⟨_, .single ⟨rfl, rfl⟩, fun h => ?_⟩,
    ⟨_, .cons ⟨rfl, rfl⟩ (.cons ⟨fun h => ?_, rfl⟩ (.single ⟨rfl, rfl⟩)), fun h => ?_⟩⟩
  · exact absurd (h.debuggedPid 9 rfl) (by decide)
  · have hmem : (7 : DWORD) ∈ ({7} : Finset DWORD) := Finset.mem_singleton_self 7
    exact absurd ((h.debugged 7).mp hmem) (by decide)
  · cases h
  · exact absurd (h.dbgLoop 7 rfl) (by decide)

end RoboDbg
