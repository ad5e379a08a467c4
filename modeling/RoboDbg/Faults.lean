import RoboDbg.Transparency

/-!
# Exceptions of the debuggee's own

`loop` continues every event with `DBG_CONTINUE`, so that a thread goes on from its
context and the handlers of the debuggee are not asked. An instruction that raises an
exception is then tried again and reported again, and the program stays in front of it.
-/

namespace RoboDbg

open Stutter Runs Debugger

variable {b : Build} {σ : Type*}

inductive ContinueStatus
  | DBG_CONTINUE
  | DBG_EXCEPTION_NOT_HANDLED

/-- The local `cont`, which no branch of the `switch` changes. -/
def Debugger.cont : ContinueStatus := .DBG_CONTINUE

structure Fault (b : Build) where
  ExceptionCode : DWORD
  ExceptionInformation : DWORD_PTR b × DWORD_PTR b
  ne_breakpoint : ExceptionCode ≠ EXCEPTION_BREAKPOINT
  ne_singleStep : ExceptionCode ≠ EXCEPTION_SINGLE_STEP

/-- The callback that an exception at `ip` reaches. -/
def Fault.notification (f : Fault b) (ip : LPVOID b) : Call b :=
  if f.ExceptionCode = EXCEPTION_ACCESS_VIOLATION then
    .onAccessViolation f.ExceptionInformation.2 f.ExceptionInformation.2
      (f.ExceptionInformation.1.setWidth 32)
  else .onUnknownException ip f.ExceptionCode

/-- What the instruction at `Ip` does, or what it raises instead. -/
abbrev Raise (b : Build) (σ : Type*) :=
  (LPVOID b → BYTE) → Cpu b σ → Except (Fault b) (Effect b σ)

abbrev Handler (b : Build) (σ : Type*) := Fault b → Exec b σ

/-! ## The program alone -/

def Bare.outcome (raise : Raise b σ) (s : Bare b σ) : Except (Fault b) (Effect b σ) :=
  raise s.memory s.cpu

/-- An instruction that raises is tried again. -/
def Raise.retrying (raise : Raise b σ) : Exec b σ := fun m c =>
  match raise m c with
  | .ok e => e
  | .error _ => ⟨c, []⟩

structure WellRaising (raise : Raise b σ) (starts : Set (LPVOID b)) (s : Bare b σ) : Prop where
  ip : s.cpu.Ip ∈ starts
  int3 : ∀ a ∈ starts, s.memory a ≠ int3
  trapFlag : s.cpu.EFlags.getLsbD 8 = false
  reads : ∀ m, (∀ a, a ∉ starts ∨ a = s.cpu.Ip → m a = s.memory a) →
    raise m s.cpu = raise s.memory s.cpu
  writes : ∀ e, s.outcome raise = .ok e → ∀ w ∈ e.writes, w.1 ∉ starts

section Program

variable {raise : Raise b σ} {handler : Handler b σ} {starts : Set (LPVOID b)} {s : Bare b σ}
  {f : Fault b}

theorem retrying_of_ok {m : LPVOID b → BYTE} {c : Cpu b σ} {e : Effect b σ}
    (h : raise m c = .ok e) : raise.retrying m c = e := by
  simp only [Raise.retrying, h]

theorem retrying_of_error {m : LPVOID b → BYTE} {c : Cpu b σ} (h : raise m c = .error f) :
    raise.retrying m c = ⟨c, []⟩ := by
  simp only [Raise.retrying, h]

theorem WellRaising.behaved (h : WellRaising raise starts s) :
    WellBehaved raise.retrying starts s := by
  refine ⟨h.ip, h.int3, h.trapFlag, fun m hm => ?_, fun w hw => ?_⟩
  · simp only [Raise.retrying, h.reads m hm]
  · cases hr : raise s.memory s.cpu with
    | ok e =>
      rw [retrying_of_ok hr] at hw
      exact h.writes e hr w hw
    | error f =>
      rw [retrying_of_error hr] at hw
      cases hw

end Program

/-! ## The program under the debugger -/

namespace Machine

def raised (cb : Callbacks b) (tid : DWORD) (f : Fault b) (m : Machine b σ) : Machine b σ :=
  let e := ⟨f.ExceptionCode, (m.dbg.os.context tid).Ip, tid, f.ExceptionInformation⟩
  { m with dbg := m.dbg.handleException cb e }

/-- The thread goes on from its context, or its handlers are asked first. -/
def continued (handler : Handler b σ) (tid : DWORD) (f : Fault b) (m : Machine b σ) :
    ContinueStatus → Machine b σ
  | .DBG_CONTINUE => m
  | .DBG_EXCEPTION_NOT_HANDLED =>
    let e := handler f m.dbg.os.memory.bytes (m.cpu tid)
    ⟨{ m.dbg with os := m.dbg.os.perform tid e }, e.cpu.data⟩

def stepRaising (raise : Raise b σ) (handler : Handler b σ) (cb : Callbacks b) (tid : DWORD)
    (m : Machine b σ) : Machine b σ :=
  let os := m.dbg.os
  let ctx := os.context tid
  if ctx.Faults then m.report cb tid EXCEPTION_SINGLE_STEP ctx.Ip
  else if os.memory.bytes ctx.Ip = int3 then
    (m.behindInt3 tid).report cb tid EXCEPTION_BREAKPOINT ctx.Ip
  else
    match raise os.memory.bytes (m.cpu tid) with
    | .error f => (m.raised cb tid f).continued handler tid f cont
    | .ok e =>
      let m : Machine b σ := ⟨{ m.dbg with os := os.perform tid e }, e.cpu.data⟩
      if ctx.trapFlag then m.report cb tid EXCEPTION_SINGLE_STEP e.cpu.Ip else m

def reporting (calls : List (Call b × BreakpointAction)) (m : Machine b σ) : Machine b σ :=
  { m with dbg := { m.dbg with trace := m.dbg.trace ++ calls } }

theorem reporting_nil (m : Machine b σ) : m.reporting [] = m := by
  simp only [reporting, List.append_nil]

theorem reporting_append (m : Machine b σ) (calls calls' : List (Call b × BreakpointAction)) :
    (m.reporting calls).reporting calls' = m.reporting (calls ++ calls') := by
  simp only [reporting, List.append_assoc]

/-- What the machine does to the debugger is what turns of `loop` do. -/
theorem stepRaising_run (raise : Raise b σ) (handler : Handler b σ) (cb : Callbacks b) (tid : DWORD)
    {m : Machine b σ} (hloop : m.dbg.dbgLoop = true) :
    ∃ turns, Run (LoopStep (fun _ _ => True) cb) m.dbg turns
      (m.stepRaising raise handler cb tid).dbg := by
  have hmove : ∀ os, LoopStep (fun _ _ => True) cb m.dbg (.debuggee os) { m.dbg with os := os } :=
    fun _ => .debuggee trivial
  have hreport : ∀ os data code a, ∃ turns, Run (LoopStep (fun _ _ => True) cb) m.dbg turns
      (report cb tid code a (⟨{ m.dbg with os := os }, data⟩ : Machine b σ)).dbg := by
    intro os data code a
    have hloop' : ({ m.dbg with os := os } : Debugger b).dbgLoop = true := hloop
    exact ⟨_, .cons (hmove os) (.single (.event (.EXCEPTION ⟨code, a, tid, 0, 0⟩) hloop'))⟩
  simp only [stepRaising]
  split_ifs with hfaults hint3 htrap
  · exact ⟨_, .single (report_run cb tid _ _ hloop)⟩
  · exact hreport _ _ _ _
  · split
    · exact ⟨_, .single (.event (.EXCEPTION _) hloop)⟩
    · exact hreport _ _ _ _
  · split
    · exact ⟨_, .single (.event (.EXCEPTION _) hloop)⟩
    · exact ⟨_, .single (hmove _)⟩

end Machine

namespace Debugger

variable {d : Debugger b}

theorem handleException_fault (ans : Call b → Debugger b → BreakpointAction) (f : Fault b)
    (ip : LPVOID b) {tid : DWORD}
    (ho : d.os.fails (.openThread tid) = false) :
    ∃ bpType, d.handleException (answering ans)
        ⟨f.ExceptionCode, ip, tid, f.ExceptionInformation⟩ =
      { d with trace := d.trace ++ [(f.notification ip, bpType)] } := by
  let e : ExceptionEvent b := ⟨f.ExceptionCode, ip, tid, f.ExceptionInformation⟩
  have ho' : d.os.fails (.openThread e.dwThreadId) = false := ho
  have hss : ¬ (e.ExceptionCode = EXCEPTION_SINGLE_STEP ∧ (d.opened tid).stepping = true) :=
    fun h => f.ne_singleStep h.1
  have hcall : (d.opened tid).dispatch (answering ans) e d.os.handles.next =
      ((d.opened tid).call (answering ans) (f.notification ip)).1 := by
    rw [dispatch, if_neg f.ne_breakpoint, if_neg hss, if_neg f.ne_singleStep, Fault.notification]
    split_ifs <;> rfl
  refine ⟨ans (f.notification ip) (d.opened tid), (handleException_of_opened ho').trans ?_⟩
  rw [hcall]
  simp only [Debugger.call, answering, closing, opened, Os.closeHandle, HandleTable.close_insert]

end Debugger

def Debugger.program (tid : DWORD) (data : σ) (d : Debugger b) : Bare b σ :=
  ⟨d.os.memory.bytes, Machine.cpu tid ⟨d, data⟩⟩

/-! ## In front of a faulting instruction -/

variable {raise : Raise b σ} {handler : Handler b σ} {starts : Set (LPVOID b)} {tid : DWORD}
  {m : Machine b σ} {s : Bare b σ} {f : Fault b} {cb : Callbacks b}
  {ans : Call b → Debugger b → BreakpointAction} {A : Arms b}

/-- No breakpoint is in the way, and the next instruction raises `f`. -/
structure Stuck (raise : Raise b σ) (starts : Set (LPVOID b)) (tid : DWORD) (f : Fault b)
    (m : Machine b σ) (s : Bare b σ) : Prop where
  related : Related raise.retrying starts tid m s
  well : WellRaising raise starts s
  faults : ¬ (m.dbg.os.context tid).Faults
  armed : ¬ m.dbg.Armed s.cpu.Ip
  raises : s.outcome raise = .error f

theorem Machine.stepRaising_eq_step (h : ¬ (m.dbg.os.context tid).Faults →
      ¬ m.dbg.Armed (m.dbg.os.context tid).Ip →
      ∃ e, raise m.dbg.os.memory.bytes (m.cpu tid) = .ok e) :
    m.stepRaising raise handler cb tid = m.step raise.retrying cb tid := by
  by_cases hfaults : (m.dbg.os.context tid).Faults
  · rw [step_of_faults hfaults]
    simp only [stepRaising, if_pos hfaults]
  · by_cases harmed : m.dbg.Armed (m.dbg.os.context tid).Ip
    · have hint3 : m.dbg.os.memory.bytes (m.dbg.os.context tid).Ip = int3 := harmed
      rw [step_of_armed hfaults harmed]
      simp only [stepRaising, if_neg hfaults, if_pos hint3]
    · have hint3 : ¬ m.dbg.os.memory.bytes (m.dbg.os.context tid).Ip = int3 := harmed
      obtain ⟨e, he⟩ := h hfaults harmed
      rw [step_of_free hfaults harmed, retrying_of_ok he]
      simp only [stepRaising, if_neg hfaults, if_neg hint3, he]

theorem Related.raise_eq (h : Related raise.retrying starts tid m s)
    (hw : WellRaising raise starts s)
    (hno : ¬ m.dbg.Armed s.cpu.Ip) :
    raise m.dbg.os.memory.bytes (m.cpu tid) = raise s.memory s.cpu := by
  rw [h.cpu]
  exact hw.reads _ (fun a ha => h.bytes_eq hno ha)

theorem Related.stepRaising_eq (h : Related raise.retrying starts tid m s)
    (hw : WellRaising raise starts s) {e : Effect b σ} (hok : s.outcome raise = .ok e) :
    m.stepRaising raise handler cb tid = m.step raise.retrying cb tid := by
  apply Machine.stepRaising_eq_step
  intro _ harmed
  rw [h.ip] at harmed
  exact ⟨e, (h.raise_eq hw harmed).trans hok⟩

theorem Stuck.step (h : Stuck raise starts tid f m s) (handler : Handler b σ)
    (ans : Call b → Debugger b → BreakpointAction) :
    ∃ bpType, m.stepRaising raise handler (answering ans) tid =
      m.reporting [(f.notification s.cpu.Ip, bpType)] := by
  have hint3 : ¬ m.dbg.os.memory.bytes s.cpu.Ip = int3 := h.armed
  have hraise := (h.related.raise_eq h.well h.armed).trans h.raises
  obtain ⟨bpType, heq⟩ := handleException_fault ans f s.cpu.Ip
    (h.related.intact.only.reliable (.openThread tid))
  refine ⟨bpType, ?_⟩
  simp only [Machine.stepRaising, if_neg h.faults, h.related.ip, if_neg hint3, hraise,
    Machine.continued, cont, Machine.raised, Machine.reporting, heq]

theorem Stuck.reporting (h : Stuck raise starts tid f m s)
    (calls : List (Call b × BreakpointAction)) :
    Stuck raise starts tid f (m.reporting calls) s := by
  obtain ⟨⟨hi, hcpu, hbehaved⟩, hw, hfaults, harmed, hraise⟩ := h
  exact ⟨⟨hi.of_same ⟨rfl, rfl, rfl, rfl, rfl, rfl, rfl⟩ rfl rfl hi.pending, hcpu, hbehaved⟩, hw,
    hfaults, harmed, hraise⟩

/-- However often the instruction is tried, each time it is reported, and nothing else changes. -/
theorem Stuck.iterate (h : Stuck raise starts tid f m s) (handler : Handler b σ)
    (ans : Call b → Debugger b → BreakpointAction) (j : ℕ) :
    ∃ answers : List BreakpointAction, answers.length = j ∧
      (Machine.stepRaising raise handler (answering ans) tid)^[j] m =
        m.reporting (answers.map (fun bpType => (f.notification s.cpu.Ip, bpType))) := by
  induction j generalizing m with
  | zero => exact ⟨[], rfl, m.reporting_nil.symm⟩
  | succ j ih =>
    obtain ⟨bpType, hstep⟩ := h.step handler ans
    obtain ⟨answers, hlen, hrest⟩ := ih (h.reporting _)
    refine ⟨bpType :: answers, by rw [List.length_cons, hlen], ?_⟩
    rw [Function.iterate_succ_apply, hstep, hrest, Machine.reporting_append]
    rfl

/-! ## Up to the exception -/

structure Quiet (raise : Raise b σ) (starts : Set (LPVOID b)) (tid : DWORD)
    (ans : Call b → Debugger b → BreakpointAction) (n : ℕ) (m : Machine b σ) (w : Watched b σ) :
    Prop where
  tracking : Tracking raise.retrying starts tid ans m w
  well : ∀ i, WellRaising raise starts ((Bare.next raise.retrying)^[i] w.bare)
  ok : ∀ i < n, ∃ e, ((Bare.next raise.retrying)^[i] w.bare).outcome raise = .ok e

theorem Related.stepRaising_two (h : Related raise.retrying starts tid m s)
    (h₁ : Related raise.retrying starts tid (m.step raise.retrying cb tid) s)
    (hw : WellRaising raise starts s) {e : Effect b σ} (hok : s.outcome raise = .ok e) :
    (Machine.stepRaising raise handler cb tid)^[2] m =
      (Machine.step raise.retrying cb tid)^[2] m := by
  simp only [Function.iterate_succ_apply, Function.iterate_zero_apply]
  rw [h.stepRaising_eq hw hok, h₁.stepRaising_eq hw hok]

theorem Quiet.reach {n : ℕ} {w : Watched b σ} (h : Quiet raise starts tid ans (n + 1) m w)
    (handler : Handler b σ) :
    ∃ k r w', Watched.Step raise.retrying w r w' ∧
      Quiet raise starts tid ans n
        ((Machine.stepRaising raise handler (answering ans) tid)^[k] m) w' ∧
      ((Machine.stepRaising raise handler (answering ans) tid)^[k] m).reports =
        m.reports ++ r.toList := by
  obtain ⟨htrack, hwell, hok⟩ := h
  obtain ⟨e, he⟩ := hok 0 (Nat.succ_pos n)
  have hquiet : ∀ m' w', w'.bare = w.bare.next raise.retrying →
      Tracking raise.retrying starts tid ans m' w' → Quiet raise starts tid ans n m' w' := by
    intro m' w' hbare htrack'
    refine ⟨htrack', fun i => ?_, fun i hi => ?_⟩
    · rw [hbare, ← Function.iterate_succ_apply]
      exact hwell (i + 1)
    · rw [hbare, ← Function.iterate_succ_apply]
      exact hok (i + 1) (Nat.succ_lt_succ hi)
  have htwo : Related raise.retrying starts tid (m.step raise.retrying (answering ans) tid) w.bare →
      (Machine.stepRaising raise handler (answering ans) tid)^[2] m =
        (Machine.step raise.retrying (answering ans) tid)^[2] m :=
    fun h₁ => htrack.related.stepRaising_two h₁ (hwell 0) he
  by_cases hhw : ∃ i, w.arms.hw i = some w.bare.cpu.Ip
  · obtain ⟨i, hi⟩ := hhw
    obtain ⟨-, -, -, -, -, hrel₁, -⟩ := htrack.hardware_report hi
    obtain ⟨bpType, w', hstep, htrack', hreports⟩ := htrack.hardware hi
    refine ⟨2, _, w', hstep, ?_, ?_⟩
    · rw [htwo hrel₁]
      exact hquiet _ _ hstep.bare_eq htrack'
    · rw [htwo hrel₁]
      exact hreports
  · have hnone : ∀ i, w.arms.hw i ≠ some w.bare.cpu.Ip := fun i hi => hhw ⟨i, hi⟩
    by_cases hsw : w.bare.cpu.Ip ∈ w.arms.sw
    · obtain ⟨-, -, -, -, -, hrel₁, -⟩ := htrack.breakpoint_report hsw
      obtain ⟨bpType, w', hstep, htrack', hreports⟩ := htrack.breakpoint hsw
      refine ⟨2, _, w', hstep, ?_, ?_⟩
      · rw [htwo hrel₁]
        exact hquiet _ _ hstep.bare_eq htrack'
      · rw [htwo hrel₁]
        exact hreports
    · obtain ⟨htrack', hreports⟩ := htrack.quiet hsw hnone
      have hone : (Machine.stepRaising raise handler (answering ans) tid)^[1] m =
          m.step raise.retrying (answering ans) tid :=
        htrack.related.stepRaising_eq (hwell 0) he
      refine ⟨1, none, _, .quiet hsw hnone, ?_, ?_⟩
      · rw [hone]
        exact hquiet _ _ rfl htrack'
      · rw [hone, hreports, Option.toList_none, List.append_nil]

end RoboDbg
