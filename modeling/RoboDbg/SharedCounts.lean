import RoboDbg.FreezeDepth
import RoboDbg.SuspendCounts

/-!
# One count of suspensions

Windows keeps one suspend count for each thread. The debugger raises and lowers it around
the change of a context, the freezer raises it to stop the process and takes it down to
zero. Debugging and freezing can still be woven into each other in any order, also within
callbacks, unless the debugger is refused only one of its two calls.
-/

namespace RoboDbg

open Runs Debugger

variable {b : Build}

/-! ## Moves of a session -/

/-- The system that a move leaves behind, if the move names it. -/
def Move.leaves : Move b → Option (Os b)
  | .memory os => some os
  | .debuggee os => some os
  | _ => none

namespace Session

def withCounts (c : DWORD → ℕ) (s : Session b) : Session b := { s with dbg := s.dbg.withCounts c }

variable {s : Session b} {m : Move b}

theorem startProcess_withCounts (commandLine : Text) (c : DWORD → ℕ) :
    ((s.withCounts c).startProcess commandLine).1 =
      (s.startProcess commandLine).1.withCounts c := by
  simp only [startProcess, withCounts]
  cases s.sys.createProcessA commandLine with
  | none => rfl
  | some r => rfl

theorem attach_withCounts (pid : DWORD) (c : DWORD → ℕ) :
    ((s.withCounts c).attach pid).1 = (s.attach pid).1.withCounts c := by
  simp only [attach, withCounts]
  split_ifs
  · rfl
  cases s.sys.debugActiveProcess pid with
  | none => rfl
  | some sys =>
    dsimp only
    cases sys.openProcess pid with
    | none => rfl
    | some r => rfl

theorem detach_withCounts (c : DWORD → ℕ) :
    (s.withCounts c).detach = (s.detach.1.withCounts c, s.detach.2) := by
  simp only [detach, withCounts]
  cases s.sys.debugActiveProcessStop s.debuggedPid with
  | none => rfl
  | some sys => rfl

theorem fst_ite_withCounts {α : Type*} {c : DWORD → ℕ} {p : Prop} [Decidable p]
    {x y x' y' : Session b × α} (hx : x'.1 = x.1.withCounts c) (hy : y'.1 = y.1.withCounts c) :
    (if p then x' else y').1 = (if p then x else y).1.withCounts c := by
  split_ifs
  · exact hx
  · exact hy

theorem exit_withCounts (c : DWORD → ℕ) : (s.withCounts c).exit.1 = s.exit.1.withCounts c := by
  unfold exit
  rw [detach_withCounts]
  exact fst_ite_withCounts rfl (fst_ite_withCounts (p := s.detach.1.hProcessGlobal = 0) rfl
    (fst_ite_withCounts (p := s.detach.1.sys.fails .terminateProcess = true) rfl rfl))

theorem injectDLL_withCounts (pDllPath : LPVOID b) (dllPath : Text) (c : DWORD → ℕ) :
    ((s.withCounts c).injectDLL pDllPath dllPath).1 =
      (s.injectDLL pDllPath dllPath).1.withCounts c :=
  fst_ite_withCounts rfl (fst_ite_withCounts rfl (fst_ite_withCounts rfl
    (fst_ite_withCounts rfl (fst_ite_withCounts rfl rfl))))

theorem passIf_withCounts (passes : Bool) (c : DWORD → ℕ) :
    (s.withCounts c).passIf passes = (s.passIf passes).withCounts c := by
  cases passes <;> rfl

theorem event_withCounts (hagree : s.dbg.os.Agreeing) (ev : DebugEvent b) (c : DWORD → ℕ) :
    (s.withCounts c).event ev = (s.event ev).withCounts c := by
  obtain ⟨hstate, hcall⟩ := arrive_uncounted hagree ev
  have harrive : (s.withCounts c).dbg.arrive ev =
      ((s.dbg.arrive ev).1.withCounts c, (s.dbg.arrive ev).2) :=
    Prod.ext (hstate.commute c) (hcall c)
  have hpasses : (s.withCounts c).dbg.arrivePasses ev = s.dbg.arrivePasses ev := rfl
  simp only [event, harrive, hpasses, passIf_withCounts]
  rfl

theorem operate_withCounts (hagree : s.dbg.os.Agreeing) (op : Operation b) (c : DWORD → ℕ) :
    (s.withCounts c).operate op = (s.operate op).withCounts c := by
  have hcommute := (operation_uncounted hagree op).commute
  have hpasses : op.passes (s.dbg.withCounts c) = op.passes s.dbg := by
    cases op <;> rfl
  unfold operate
  change { (s.withCounts c).passIf (op.passes (s.dbg.withCounts c)) with
    dbg := op.run (s.dbg.withCounts c) } = _
  rw [hpasses, hcommute, passIf_withCounts]
  rfl

theorem answer_withCounts (hagree : s.dbg.os.Agreeing) (bpType : BreakpointAction)
    (c : DWORD → ℕ) : (s.withCounts c).answer bpType = (s.answer bpType).withCounts c := by
  cases hphase : s.phase with
  | outside =>
    have hphase' : (s.withCounts c).phase = .outside := hphase
    simp only [answer, hphase, hphase']
  | waiting =>
    have hphase' : (s.withCounts c).phase = .waiting := hphase
    simp only [answer, hphase, hphase']
  | callback ev hThread call =>
    let d := { s.dbg with trace := s.dbg.trace ++ [(call, bpType)] }
    have hcommute := (complete_uncounted (d := d) hagree ev hThread call bpType).commute
    have hphase' : (s.withCounts c).phase = .callback ev hThread call := hphase
    have hdbg : complete ev hThread call bpType { (s.withCounts c).dbg with
        trace := (s.withCounts c).dbg.trace ++ [(call, bpType)] } =
      (complete ev hThread call bpType d).withCounts c := hcommute c
    simp only [answer, hphase, hphase', passIf_withCounts, hdbg]
    cases ev with
    | EXIT_PROCESS code pid => rfl
    | _ => rfl

/-- What a move does that does not itself name the system it leaves behind. -/
theorem after_withCounts (hagree : s.dbg.os.Agreeing) (hm : m.leaves = none) (c : DWORD → ℕ) :
    (s.withCounts c).after m = (s.after m).withCounts c := by
  cases m with
  | start exeName => exact startProcess_withCounts exeName c
  | startWith exeName args => exact startProcess_withCounts (commandLine exeName args) c
  | attach pid => exact attach_withCounts pid c
  | attachName exeName => exact attach_withCounts (Util.findProcessId exeName s.sys) c
  | loop => rfl
  | detach => exact congrArg Prod.fst (detach_withCounts c)
  | exit => exact exit_withCounts c
  | injectDLL pDllPath dllPath => exact injectDLL_withCounts pDllPath dllPath c
  | operation op => exact operate_withCounts hagree op c
  | memory os => cases hm
  | event ev => exact event_withCounts hagree ev c
  | answer bpType => exact answer_withCounts hagree bpType c
  | waitFails => rfl
  | leave => rfl
  | debuggee os => cases hm
  | system sys => rfl

theorem allows_withCounts (c : DWORD → ℕ) : (s.withCounts c).Allows m ↔ s.Allows m := by
  cases m <;> rfl

end Session

/-! ## The debugger and the freezer -/

namespace Scheduler

def counts (sys : Scheduler b) (tid : DWORD) : ℕ := (sys.thread tid).suspendCount

def withCounts (c : DWORD → ℕ) (sys : Scheduler b) : Scheduler b :=
  { sys with thread := fun tid => { sys.thread tid with suspendCount := c tid } }

end Scheduler

/-- A session, and the freezes that its program keeps. -/
structure Shared (b : Build) where
  session : Session b
  kept : Kept b

inductive SharedMove (b : Build)
  | debugging (m : Move b)
  | freezing (fz : Freezer) (t : FreezerTurn b)
  /-- The debuggee and everything else on the system go on; other calls may be refused. -/
  | running (os : Os b) (sys : Scheduler b)

inductive FreezerMove (b : Build)
  | turn (fz : Freezer) (t : FreezerTurn b)
  | running (sys : Scheduler b)

namespace SharedMove

def debugger : SharedMove b → Option (Move b)
  | debugging m => some m
  | freezing _ _ => none
  | running os _ => some (.debuggee os)

def freezer : SharedMove b → Option (FreezerMove b)
  | debugging _ => none
  | freezing fz t => some (.turn fz t)
  | running _ sys => some (.running sys)

end SharedMove

def FreezerStep (k : Kept b) (m : FreezerMove b) (k' : Kept b) : Prop :=
  match m with
  | .turn fz t => ∃ n, k.turn fz n t = some k'
  | .running sys => k' = { k with sys := sys }

namespace Shared

def Coupled (w : Shared b) : Prop := w.session.dbg.os.counts = w.kept.sys.counts

/-- A thread that is suspended as often as the system allows cannot be suspended again. -/
def Limited (w : Shared b) : Prop :=
  ∀ tid, MAXIMUM_SUSPEND_COUNT ≤ w.kept.sys.counts tid →
    w.session.dbg.os.fails (.suspendThread tid) = true

/-- The debuggee does not run in a move of the debugger. -/
def Stopped (w : Shared b) : Move b → Prop
  | .memory os => os.counts = w.kept.sys.counts ∧ os.snapshot = w.kept.sys.snapshot
  | .debuggee _ => False
  | _ => True

/-- The calls of the debugger change the counts that the freezer finds, and the other way
round. -/
def after (w : Shared b) (m : Move b) : Shared b where
  session := w.session.after m
  kept := { w.kept with sys := w.kept.sys.withCounts (w.session.after m).dbg.os.counts }

/-- The debugger is refused suspensions and resumptions only together. -/
def Agrees (w : Shared b) (m : SharedMove b) : Prop :=
  ∀ m', m = .debugging m' → w.session.dbg.os.Agreeing

end Shared

/-- A freezer may be called outside of `loop` and in callbacks. -/
def SharedStep (w : Shared b) (m : SharedMove b) (w' : Shared b) : Prop :=
  match m with
  | .debugging m => w.session.Allows m ∧ w.Limited ∧ w.Stopped m ∧ w' = w.after m
  | .freezing fz t => w.session.phase ≠ .waiting ∧
      ∃ k, FreezerStep w.kept (.turn fz t) k ∧ w' = ⟨w.session.withCounts k.sys.counts, k⟩
  | .running os sys => os.counts = sys.counts ∧ os.snapshot = sys.snapshot ∧
      w' = ⟨w.session.withOs os, { w.kept with sys := sys }⟩

namespace Shared

variable {w w' : Shared b} {s : Session b}

/-- The session is `s` but for the suspend counts. -/
def Follows (w : Shared b) (s : Session b) : Prop :=
  w.session = s.withCounts w.kept.sys.counts

theorem Follows.counts (h : w.Follows s) : w.session.dbg.os.counts = w.kept.sys.counts :=
  congrArg (fun s : Session b => s.dbg.os.counts) h

theorem Follows.fails (h : w.Follows s) : w.session.dbg.os.fails = s.dbg.os.fails := by
  rw [show w.session = _ from h]
  rfl

theorem Follows.allows (h : w.Follows s) (m : Move b) : w.session.Allows m ↔ s.Allows m := by
  rw [show w.session = _ from h]
  exact Session.allows_withCounts _

theorem counts_after {m : Move b} (hagree : w.session.dbg.os.Agreeing) (hcoupled : w.Coupled)
    (hstopped : w.Stopped m) : (w.session.after m).dbg.os.counts = w.kept.sys.counts := by
  cases hm : m.leaves with
  | none =>
    have hself : w.session.after m = (w.session.after m).withCounts w.session.dbg.os.counts :=
      Session.after_withCounts hagree hm w.session.dbg.os.counts
    calc (w.session.after m).dbg.os.counts
        = ((w.session.after m).withCounts w.session.dbg.os.counts).dbg.os.counts :=
          congrArg (fun s : Session b => s.dbg.os.counts) hself
      _ = w.kept.sys.counts := hcoupled
  | some os =>
    cases m with
    | memory os => exact hstopped.1
    | debuggee os => exact hstopped.elim
    | _ => cases hm

theorem Follows.after (h : w.Follows s) {m : Move b} (hagree : w.session.dbg.os.Agreeing)
    (hstopped : w.Stopped m) : (w.after m).Follows (s.after m) := by
  have hcounts := counts_after hagree h.counts hstopped
  have hsession : w.session = s.withCounts w.kept.sys.counts := h
  change w.session.after m = (s.after m).withCounts (w.session.after m).dbg.os.counts
  rw [hcounts]
  cases hm : m.leaves with
  | none =>
    have hagree' : s.dbg.os.Agreeing := by
      intro tid
      rw [← h.fails]
      exact hagree tid
    rw [hsession, Session.after_withCounts hagree' hm]
  | some os =>
    cases m with
    | memory os =>
      rw [hsession, ← hstopped.1]
      rfl
    | debuggee os => exact hstopped.elim
    | _ => cases hm

theorem after_kept {m : Move b} (hagree : w.session.dbg.os.Agreeing) (hcoupled : w.Coupled)
    (hstopped : w.Stopped m) : (w.after m).kept = w.kept := by
  unfold after
  rw [counts_after hagree hcoupled hstopped]
  rfl

/-! ### Both sides of one step -/

theorem Follows.hidden {m : SharedMove b} (h : w.Follows s)
    (hstep : Restrict SharedStep Agrees w m w') (hm : m.debugger = none) : w'.Follows s := by
  cases m with
  | debugging m => cases hm
  | freezing fz t =>
    obtain ⟨⟨-, k, -, rfl⟩, -⟩ := hstep
    have hsession : w.session = s.withCounts w.kept.sys.counts := h
    change w.session.withCounts k.sys.counts = s.withCounts k.sys.counts
    rw [hsession]
    rfl
  | running os sys => cases hm

theorem Follows.seen {m : SharedMove b} {m' : Move b} (h : w.Follows s)
    (hstep : Restrict SharedStep Agrees w m w') (hm : m.debugger = some m') :
    SessionStep s m' (s.after m') ∧ w'.Follows (s.after m') := by
  cases m with
  | debugging m =>
    cases hm
    obtain ⟨⟨hallows, -, hstopped, rfl⟩, hagrees⟩ := hstep
    exact ⟨⟨(h.allows _).mp hallows, rfl⟩, h.after (hagrees _ rfl) hstopped⟩
  | freezing fz t => cases hm
  | running os sys =>
    cases hm
    obtain ⟨⟨hcounts, -, rfl⟩, -⟩ := hstep
    have hsession : w.session = s.withCounts w.kept.sys.counts := h
    refine ⟨⟨trivial, rfl⟩, ?_⟩
    change w.session.withOs os = (s.withOs os).withCounts sys.counts
    rw [hsession, ← hcounts]
    rfl

theorem kept_hidden {m : SharedMove b} (hcoupled : w.Coupled)
    (hstep : Restrict SharedStep Agrees w m w') (hm : m.freezer = none) :
    w'.kept = w.kept ∧ w'.Coupled := by
  cases m with
  | debugging m =>
    obtain ⟨⟨-, -, hstopped, rfl⟩, hagrees⟩ := hstep
    exact ⟨after_kept (hagrees _ rfl) hcoupled hstopped, rfl⟩
  | freezing fz t => cases hm
  | running os sys => cases hm

theorem kept_seen {m : SharedMove b} {m' : FreezerMove b}
    (hstep : Restrict SharedStep Agrees w m w') (hm : m.freezer = some m') :
    FreezerStep w.kept m' w'.kept ∧ w'.Coupled := by
  cases m with
  | debugging m => cases hm
  | freezing fz t =>
    cases hm
    obtain ⟨⟨-, k, hturn, rfl⟩, -⟩ := hstep
    exact ⟨hturn, rfl⟩
  | running os sys =>
    cases hm
    obtain ⟨⟨hcounts, -, rfl⟩, -⟩ := hstep
    exact ⟨rfl, hcounts⟩

end Shared

/-- Whichever way they are woven into each other, the freezes go on as if nothing were
debugged, and the session goes on as if nothing were frozen. -/
theorem freezing_and_debugging_independent {w w' : Shared b} {moves : List (SharedMove b)}
    (hcoupled : w.Coupled)
    (hrun : Run (Restrict SharedStep Shared.Agrees) w moves w') :
    Run FreezerStep w.kept (moves.filterMap SharedMove.freezer) w'.kept ∧
      ∃ s, Run SessionStep w.session (moves.filterMap SharedMove.debugger) s ∧
        w'.session = s.withCounts w'.kept.sys.counts := by
  constructor
  · obtain ⟨k, hfreezes, rfl, -⟩ : ∃ k, Run FreezerStep w.kept
        (moves.filterMap SharedMove.freezer) k ∧ w'.kept = k ∧ w'.Coupled := by
      -- the freezes see the counts only, so these have to agree all along
      refine hrun.project (R := fun w k => w.kept = k ∧ w.Coupled) ?_ ?_ ⟨rfl, hcoupled⟩
      · rintro w m w' k hstep hm ⟨rfl, hcoupled⟩
        exact Shared.kept_hidden hcoupled hstep hm
      · rintro w m w' m' k hstep hm ⟨rfl, -⟩
        exact ⟨w'.kept, (Shared.kept_seen hstep hm).imp_right fun h => ⟨rfl, h⟩⟩
    exact hfreezes
  · -- a freeze changes nothing of the session but the counts, which no move depends on
    have hfollows : w.Follows w.session := by
      change w.session = w.session.withCounts w.kept.sys.counts
      rw [← show w.session.dbg.os.counts = w.kept.sys.counts from hcoupled]
      rfl
    exact hrun.project (fun _ _ _ _ hstep hm h => h.hidden hstep hm)
      (fun _ _ _ _ _ hstep hm h => ⟨_, h.seen hstep hm⟩) hfollows

theorem hardware_set_while_frozen :
    let dbg : Debugger .x64 := .new (.ofCode (fun _ => 0x90) [7])
    let w₀ : Shared .x64 :=
      ⟨.ofDebugger dbg 0 (.idle 9 []), ⟨.ofThreads [7] (by decide) (fun _ => 0), []⟩⟩
    let fz : Freezer := ⟨4, 1⟩
    let op : Operation .x64 :=
      .hardware (.hardware (.setHardwareBreakpoint ⟨0, 0x1000, .DR1, .EXECUTE, .BYTE⟩))
    ∃ w' : Shared .x64, Run FreezerStep w₀.kept [.turn fz .freeze] w'.kept ∧
      ∃ s, Run SessionStep w₀.session [.operation op, .loop] s ∧
        w'.session = s.withCounts w'.kept.sys.counts := by
  intro dbg w₀ fz op
  let frozen := fz.suspend w₀.kept.sys
  let k : Kept .x64 := ⟨frozen.2, frozen.1.toList⟩
  let w₁ : Shared .x64 := ⟨w₀.session.withCounts k.sys.counts, k⟩
  let w₂ := w₁.after (.operation op)
  have hagree₁ : w₁.session.dbg.os.Agreeing := fun _ => rfl
  have hkept : w₂.kept = k := Shared.after_kept hagree₁ rfl trivial
  have hagree₂ : w₂.session.dbg.os.Agreeing :=
    (operation_uncounted hagree₁ op).agreeing hagree₁
  have hcount : ∀ tid, k.sys.counts tid ≤ 1 := by
    intro tid
    by_cases hself : tid = 7
    · subst hself
      exact Nat.le_refl 1
    · have hother : k.sys.thread tid = w₀.kept.sys.thread tid := Function.update_of_ne hself _ _
      rw [Scheduler.counts, hother]
      exact Nat.zero_le 1
  have hlimited : ∀ w : Shared .x64, w.kept = k → w.Limited := by
    intro w hw tid htid
    rw [hw] at htid
    exact absurd (htid.trans (hcount tid)) (by decide)
  have hrun : Run (Restrict SharedStep Shared.Agrees) w₀ [.freezing fz .freeze,
      .debugging (.operation op), .debugging .loop] (w₂.after .loop) := by
    refine .cons ⟨⟨fun h => ?_, k, ⟨0, rfl⟩, rfl⟩, fun _ hm => ?_⟩
      (.cons ⟨⟨fun h => ?_, hlimited _ rfl, trivial, rfl⟩, ?_⟩
        (.single ⟨⟨rfl, hlimited _ hkept, trivial, rfl⟩, ?_⟩))
    · cases h
    · cases hm
    · cases h
    · rintro _ -
      exact hagree₁
    · rintro _ -
      exact hagree₂
  have hcoupled : w₀.Coupled := rfl
  exact ⟨_, freezing_and_debugging_independent hcoupled hrun⟩

end RoboDbg
