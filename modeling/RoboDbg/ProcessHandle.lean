import RoboDbg.Foundation.Closing
import RoboDbg.Session

/-!
# Who closes the process handle

`exit`, the failure paths of `injectDLL` and the end of `loop` all pass
`hProcessGlobal` to `CloseHandle`, and none of them tells the others. A callback
may call the first two while the loop is still going to use the handle.
-/

namespace RoboDbg

open Debugger Runs

variable {b : Build}

def InLoop (s : Session b) (m : Move b) (s' : Session b) : Prop :=
  SessionStep s m s' ∧ s.phase ≠ .outside

def Move.Leaves (m : Move b) : Prop := m = .waitFails ∨ m = .leave

namespace Session

/-- `hProcessGlobal` has not been passed to anything after it was closed. -/
def HandleSafe (s : Session b) : Prop := InOrder (fun use => use = .closed) s.uses

/-- The answer makes `clearHardwareBreakpoint` refresh the thread list. -/
def AnswerPasses (bpType : BreakpointAction) (s : Session b) : Prop :=
  ∃ ev hThread c, s.phase = .callback ev hThread c ∧ completePasses ev c bpType = true

def Closes (s : Session b) : Move b → Prop
  | .exit => s.DetachSucceeds ∧ s.hProcessGlobal ≠ 0 ∧ s.sys.fails .terminateProcess = false
  | .injectDLL _ _ => s.InjectionFails
  | .waitFails => True
  | .leave => True
  | _ => False

def Touches (s : Session b) : Move b → Prop
  | .exit => s.DetachSucceeds ∧ s.hProcessGlobal ≠ 0
  | .injectDLL _ _ => s.hProcessGlobal ≠ 0
  | .operation op => op.passes s.dbg = true
  | .memory _ => True
  | .event ev => s.dbg.arrivePasses ev = true
  | .answer bpType => s.AnswerPasses bpType
  | .waitFails => True
  | .leave => True
  | _ => False

/-! ## What a move adds to the record -/

/-- From `s` to `s'` the record grows by a part that is itself in order; it has a closing
use if `closes`, and any use at all if `touches`. -/
def Adds (closes touches : Prop) (s s' : Session b) : Prop :=
  ∃ l, s'.uses = s.uses ++ l ∧ InOrder (fun use => use = .closed) l ∧
    (closes ↔ Runs.Closed (fun use => use = .closed) l) ∧ (touches ↔ l ≠ [])

variable {s s' : Session b} {closes touches : Prop}

theorem not_closed_replicate (n : ℕ) :
    ¬ Runs.Closed (fun use => use = .closed) (List.replicate n HandleUse.passed) := by
  rintro ⟨use, hmem, rfl⟩
  cases (List.mem_replicate.mp hmem).2

theorem adds_passed {n : ℕ} (huses : s'.uses = s.uses ++ List.replicate n .passed)
    (hcloses : ¬ closes) (htouches : touches ↔ n ≠ 0) : Adds closes touches s s' := by
  refine ⟨_, huses, inOrder_of_open (not_closed_replicate n),
    iff_of_false hcloses (not_closed_replicate n), htouches.trans ?_⟩
  rw [ne_eq, ne_eq, List.replicate_eq_nil_iff]

theorem adds_closed {n : ℕ} (huses : s'.uses = s.uses ++ List.replicate n .passed ++ [.closed])
    (hcloses : closes) (htouches : touches) : Adds closes touches s s' := by
  have hclosed : Runs.Closed (fun use => use = .closed) [HandleUse.closed] :=
    ⟨.closed, List.mem_singleton_self _, rfl⟩
  refine ⟨List.replicate n .passed ++ [.closed], ?_, ?_, ?_, iff_of_true htouches (by simp)⟩
  · rw [huses, List.append_assoc]
  · refine inOrder_append.mpr ⟨inOrder_of_open (not_closed_replicate n), ?_, ?_⟩
    · exact ⟨fun _ => rfl, trivial⟩
    · exact fun h => absurd h (not_closed_replicate n)
  · exact iff_of_true hcloses (closed_append.mpr (Or.inr hclosed))

theorem adds_nothing (huses : s'.uses = s.uses) (hcloses : ¬ closes) (htouches : ¬ touches) :
    Adds closes touches s s' :=
  adds_passed (n := 0) (by rw [huses, List.replicate_zero, List.append_nil]) hcloses
    (iff_of_false htouches (fun h => h rfl))

theorem adds_passIf (passes : Bool) (huses : s'.uses = (s.passIf passes).uses)
    (hcloses : ¬ closes) (htouches : touches ↔ passes = true) : Adds closes touches s s' := by
  cases passes with
  | false => exact adds_nothing huses hcloses (fun h => by cases htouches.mp h)
  | true => exact adds_passed (n := 1) huses hcloses (htouches.trans (by simp))

theorem adds_detach (s : Session b) : Adds False False s s.detach.1 := by
  rcases s.detach_cases with ⟨-, hdetach⟩ | ⟨-, hdetach⟩
  · rw [hdetach]
    exact adds_nothing rfl id id
  · rw [hdetach]
    exact adds_nothing rfl id id

theorem adds_exit (s : Session b) : Adds (s.Closes .exit) (s.Touches .exit) s s.exit.1 := by
  obtain ⟨hrefused, hexit⟩ | ⟨-, hnull, hexit⟩ | ⟨hsucceeds, hnull, hfails, hexit⟩ |
    ⟨hsucceeds, hnull, hterminated, hexit⟩ := s.exit_cases
  · rw [hexit]
    exact adds_nothing rfl (fun h => hrefused h.1) (fun h => hrefused h.1)
  · rw [hexit]
    exact adds_nothing rfl (fun h => h.2.1 hnull) (fun h => h.2 hnull)
  · have hopen : ¬ s.Closes .exit := by
      rintro ⟨-, -, hterminated⟩
      rw [hfails] at hterminated
      cases hterminated
    rw [hexit]
    exact adds_passed (n := 1) rfl hopen (iff_of_true ⟨hsucceeds, hnull⟩ Nat.one_ne_zero)
  · rw [hexit]
    exact adds_closed (n := 1) rfl ⟨hsucceeds, hnull, hterminated⟩ ⟨hsucceeds, hnull⟩

theorem adds_injectDLL (s : Session b) (pDllPath : LPVOID b) (dllPath : Text) :
    Adds s.InjectionFails (s.hProcessGlobal ≠ 0) s (s.injectDLL pDllPath dllPath).1 := by
  obtain ⟨hnull, hsame⟩ | ⟨hfails, n, os, hclosed⟩ | ⟨hnull, hok, n, os, hpassed⟩ :=
    s.injectDLL_cases pDllPath dllPath
  · rw [hsame]
    exact adds_nothing rfl (fun h => h.1 hnull) (fun h => h hnull)
  · rw [hclosed, passTimes_eq]
    exact adds_closed (n := n + 1) rfl hfails hfails.1
  · rw [hpassed, passTimes_eq]
    exact adds_passed (n := n + 1) rfl hok (iff_of_true hnull n.succ_ne_zero)

theorem adds_answer (s : Session b) (bpType : BreakpointAction) :
    Adds False (s.AnswerPasses bpType) s (s.answer bpType) := by
  unfold answer
  cases hphase : s.phase with
  | outside =>
    refine adds_nothing rfl id ?_
    rintro ⟨ev, hThread, c, hcallback, -⟩
    rw [hphase] at hcallback
    cases hcallback
  | waiting =>
    refine adds_nothing rfl id ?_
    rintro ⟨ev, hThread, c, hcallback, -⟩
    rw [hphase] at hcallback
    cases hcallback
  | callback ev hThread c =>
    refine adds_passIf (completePasses ev c bpType) ?_ id ?_
    · cases ev with
      | EXIT_PROCESS _ _ => rfl
      | _ => rfl
    · constructor
      · rintro ⟨ev', hThread', c', hcallback, hpasses⟩
        rw [hphase] at hcallback
        cases hcallback
        exact hpasses
      · exact fun hpasses => ⟨ev, hThread, c, hphase, hpasses⟩

theorem adds_leave (s : Session b) : Adds True True s s.leave := by
  have huses : s.leave.uses = s.uses ++ List.replicate 0 .passed ++ [.closed] := by
    rw [List.replicate_zero, List.append_nil]
    rfl
  exact adds_closed huses trivial trivial

theorem loop_records : Records (InLoop (b := b)) (fun use => use = .closed) uses Closes
    Touches := by
  rintro s m s' ⟨⟨hallowed, rfl⟩, hinside⟩
  change Adds (s.Closes m) (s.Touches m) s (s.after m)
  cases m with
  | start exeName => exact absurd hallowed hinside
  | startWith exeName args => exact absurd hallowed hinside
  | attach pid => exact absurd hallowed hinside
  | attachName exeName => exact absurd hallowed hinside
  | loop => exact absurd hallowed hinside
  | detach => exact s.adds_detach
  | exit => exact s.adds_exit
  | injectDLL pDllPath dllPath => exact s.adds_injectDLL pDllPath dllPath
  | operation op => exact adds_passIf _ rfl id Iff.rfl
  | memory os => exact adds_passed (n := 1) rfl id (iff_of_true trivial Nat.one_ne_zero)
  | event ev => exact adds_passIf _ rfl id Iff.rfl
  | answer bpType => exact s.adds_answer bpType
  | waitFails => exact s.adds_leave
  | leave => exact s.adds_leave
  | debuggee os => exact adds_nothing rfl id id
  | system sys => exact adds_nothing rfl id id

end Session

open Session

/-- The handle is closed once and not used afterwards exactly in the runs in which no move
touches it after one that closes it; and if the loop returns through its last lines, exactly
if no callback has closed it. -/
theorem process_handle_closed_once {b : Build} {s s' : Session b} {moves : List (Move b)}
    (hopen : HandleUse.closed ∉ s.uses) (hrun : Run InLoop s moves s') :
    (s'.HandleSafe ↔ ClosedOnce InLoop Closes Touches s moves s') ∧
      ∀ m s'', InLoop s' m s'' → m.Leaves →
        (s''.HandleSafe ↔ Run (Restrict InLoop (fun s m => ¬ s.Closes m)) s moves s') := by
  have hstart : ¬ Runs.Closed (fun use => use = .closed) s.uses := by
    rintro ⟨use, hmem, rfl⟩
    exact hopen hmem
  refine ⟨loop_records.inOrder_iff hstart hrun, ?_⟩
  rintro m s'' ⟨⟨-, rfl⟩, -⟩ hleaves
  have huses : (s'.after m).uses = s'.uses ++ [.closed] := by
    rcases hleaves with rfl | rfl
    · rfl
    · rfl
  rw [HandleSafe, huses, inOrder_append, ← loop_records.open_iff hstart hrun]
  constructor
  · rintro ⟨-, -, hclosed⟩ hc
    cases hclosed hc
  · intro hc
    exact ⟨inOrder_of_open hc, ⟨fun _ => rfl, trivial⟩, fun h => absurd h hc⟩

theorem callback_run {s : Session b} {ev : DebugEvent b} {m : Move b} (bpType : BreakpointAction)
    (hwaiting : s.phase = .waiting) (hloop : s.dbg.dbgLoop = true) (hm : (s.event ev).Allows m)
    (hcallback : ∃ ev' h c, (s.event ev).phase = .callback ev' h c)
    (hkept : ((s.event ev).after m).phase = (s.event ev).phase) :
    Run InLoop s [.event ev, m, .answer bpType] (((s.event ev).after m).answer bpType) := by
  obtain ⟨ev', h, c, hphase⟩ := hcallback
  have hfirst : InLoop s (.event ev) (s.event ev) := by
    refine ⟨⟨⟨hwaiting, hloop⟩, rfl⟩, fun hout => ?_⟩
    rw [hwaiting] at hout
    cases hout
  have hcall : InLoop (s.event ev) m ((s.event ev).after m) := by
    refine ⟨⟨hm, rfl⟩, fun hout => ?_⟩
    rw [hphase] at hout
    cases hout
  have hanswer : InLoop ((s.event ev).after m) (.answer bpType)
      (((s.event ev).after m).answer bpType) := by
    refine ⟨⟨⟨ev', h, c, hkept.trans hphase⟩, rfl⟩, fun hout => ?_⟩
    rw [hkept, hphase] at hout
    cases hout
  exact .cons hfirst (.cons hcall (.single hanswer))

def looping (refused : List ProcessCall) : Session .x64 :=
  ((Session.ofDebugger (.new (.ofCode (fun _ => 0x90) [7])) 0 (.idle 9 refused)).attach 1).1.loop

/-- `onStart` calls `exit()`, which cannot terminate the process. -/
theorem process_handle_closed_once_refused :
    let s := looping [.terminateProcess]
    let s' := (s.event (.CREATE_PROCESS 0)).exit.1.answer .BREAK
    s'.leave.HandleSafe ↔ Run (Restrict InLoop (fun s m => ¬ s.Closes m)) s
      [.event (.CREATE_PROCESS 0), .exit, .answer .BREAK] s' := by
  intro s s'
  have hopen : HandleUse.closed ∉ s.uses := List.not_mem_nil
  have hrun : Run InLoop s [.event (.CREATE_PROCESS 0), .exit, .answer .BREAK] s' := by
    refine callback_run .BREAK rfl rfl (fun hwaiting => ?_) ⟨_, _, _, rfl⟩ rfl
    cases hwaiting
  have hleave : InLoop s' .leave s'.leave := by
    refine ⟨⟨⟨rfl, rfl⟩, rfl⟩, fun hout => ?_⟩
    cases hout
  exact (process_handle_closed_once hopen hrun).2 .leave s'.leave hleave (Or.inr rfl)

/-- `onStart` calls `exit()`, and the loop closes the handle again; or it calls `injectDLL`,
which fails and closes the handle, and the next event uses it. -/
theorem process_handle_closed_twice :
    (∃ s s', Run InLoop (looping []) [.event (.CREATE_PROCESS 0), .exit, .answer .BREAK] s ∧
        InLoop s .leave s' ∧ s'.uses = [.passed, .passed, .closed, .closed] ∧ ¬ s'.HandleSafe) ∧
      ∃ s s', Run InLoop (looping [.virtualAllocEx])
        [.event (.CREATE_PROCESS 0), .injectDLL 0x5000 (literal "a.dll"), .answer .BREAK] s ∧
          InLoop s (.event (.LOAD_DLL 0 0 0)) s' ∧
            s'.uses = [.passed, .passed, .closed, .passed] ∧ ¬ s'.HandleSafe := by
  refine ⟨⟨_, _, callback_run _ rfl rfl (fun hwaiting => ?_) ⟨_, _, _, rfl⟩ rfl,
      ⟨⟨⟨rfl, rfl⟩, rfl⟩, fun hout => ?_⟩, rfl, fun hsafe => ?_⟩,
    ⟨_, _, callback_run _ rfl rfl (fun hwaiting => ?_) ⟨_, _, _, rfl⟩ rfl,
      ⟨⟨⟨rfl, rfl⟩, rfl⟩, fun hout => ?_⟩, rfl, fun hsafe => ?_⟩⟩
  · cases hwaiting
  · cases hout
  · cases hsafe.2.2.1 rfl
  · cases hwaiting
  · cases hout
  · cases hsafe.2.2.1 rfl

end RoboDbg
