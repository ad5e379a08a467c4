import RoboDbg.PendingRestore

/-!
# No orphaned int3

An int3 that `setBreakpoint` wrote must stay listed, or a later hit on it is not
recognised. `onBreakpoint` runs after the byte has been restored and before a
`BREAK` erases the entry, so a callback that sets the same breakpoint again and
then answers `BREAK` leaves an orphan; nothing else does.
-/

namespace RoboDbg

open Runs

variable {b : Build}

namespace Debugger

/-- Every int3 written by `setBreakpoint` is listed. -/
def NoOrphan (d : Debugger b) : Prop := ∀ a, d.Planted a → a ∈ d.breakpoints

/-- Callbacks that set breakpoints, on any addresses and any number of times, and
then answer. -/
def scripted (script : Call b → Debugger b → List (LPVOID b) × BreakpointAction) : Callbacks b :=
  fun c d => ((script c d).1.foldl (fun d a => d.setBreakpoint a) d, (script c d).2)

/-- `NoOrphan`, and no original byte is an int3. -/
structure Clean (d : Debugger b) : Prop where
  accessible : d.os.memory.Accessible
  noOrphan : d.NoOrphan
  stored : ∀ (a : LPVOID b) (x : BYTE), d.breakpoints[a]? = some x → x ≠ int3

variable {d d' : Debugger b}

theorem Clean.of_same (h : Clean d) (hmem : d'.os.memory = d.os.memory)
    (hbps : d'.breakpoints = d.breakpoints) : Clean d' := by
  refine ⟨?_, ?_, ?_⟩
  · rw [hmem]
    exact h.accessible
  · unfold NoOrphan Planted
    rw [hmem, hbps]
    exact h.noOrphan
  · rw [hbps]
    exact h.stored

theorem Clean.of_hwFrame (h : Clean d) (hf : HwFrame d d') : Clean d' :=
  h.of_same hf.memory hf.breakpoints

theorem Clean.of_controlFrame (h : Clean d) (hf : ControlFrame d d') : Clean d' :=
  h.of_same hf.memory hf.breakpoints

theorem Clean.ofCode (code : LPVOID b → BYTE) (tids : List DWORD) :
    Clean (new (.ofCode code tids)) := by
  refine ⟨fun _ => ⟨rfl, rfl⟩, fun a ha => ?_, fun a x hx => ?_⟩
  · obtain ⟨-, hw⟩ := ha
    cases hw
  · have hnone : (∅ : Std.TreeMap (LPVOID b) BYTE compare)[a]? = none := by simp
    cases hnone.symm.trans hx

/-! ## Setting breakpoints -/

theorem setBreakpoint_planted_self (hacc : d.os.memory.Accessible) {a : LPVOID b}
    (ha : d.Planted a ∨ ¬ d.Armed a) : (d.setBreakpoint a).Planted a := by
  by_cases harmed : d.Armed a
  · rw [setBreakpoint_of_armed hacc harmed]
    rcases ha with hp | hno
    · exact hp
    · exact absurd harmed hno
  · rw [setBreakpoint_of_not_armed hacc harmed]
    exact ⟨Function.update_self _ _ _, Function.update_self _ _ _⟩

theorem setBreakpoint_planted_of_ne (hacc : d.os.memory.Accessible) {a x : LPVOID b}
    (hne : x ≠ a) : (d.setBreakpoint a).Planted x ↔ d.Planted x := by
  by_cases harmed : d.Armed a
  · rw [setBreakpoint_of_armed hacc harmed]
  · rw [setBreakpoint_of_not_armed hacc harmed]
    simp only [Planted, Memory.store_bytes, Memory.store_writer, Function.update_of_ne hne]

theorem Clean.setBreakpoint (h : Clean d) (a : LPVOID b) : Clean (d.setBreakpoint a) := by
  by_cases harmed : d.Armed a
  · rwa [setBreakpoint_of_armed h.accessible harmed]
  · refine ⟨(setBreakpoint_frame a d).accessible h.accessible, ?_, ?_⟩
    · intro x hx
      by_cases hxa : x = a
      · rw [hxa, setBreakpoint_of_not_armed h.accessible harmed]
        exact Std.TreeMap.mem_insert_self
      · have hlisted := h.noOrphan x ((setBreakpoint_planted_of_ne h.accessible hxa).mp hx)
        rw [setBreakpoint_of_not_armed h.accessible harmed]
        exact Std.TreeMap.mem_insert.mpr (Or.inr hlisted)
    · intro x y hy
      rw [setBreakpoint_of_not_armed h.accessible harmed] at hy
      by_cases hxa : a = x
      · subst hxa
        rw [Std.TreeMap.getElem?_insert_self, Option.some.injEq] at hy
        subst hy
        exact harmed
      · simp only [Std.TreeMap.getElem?_insert, Std.LawfulEqCmp.compare_eq_iff_eq, hxa,
          if_false] at hy
        exact h.stored x y hy

theorem Clean.setAll (h : Clean d) (as : List (LPVOID b)) :
    Clean (as.foldl (fun d a => d.setBreakpoint a) d) := by
  induction as generalizing d with
  | nil => exact h
  | cons a as ih => exact ih (h.setBreakpoint a)

theorem setAll_planted (hacc : d.os.memory.Accessible) {as : List (LPVOID b)} {a : LPVOID b}
    (ha : d.Planted a ∨ (a ∈ as ∧ ¬ d.Armed a)) :
    (as.foldl (fun d a => d.setBreakpoint a) d).Planted a := by
  induction as generalizing d with
  | nil =>
    rcases ha with hp | ⟨hmem, -⟩
    · exact hp
    · cases hmem
  | cons c as ih =>
    apply ih ((setBreakpoint_frame c d).accessible hacc)
    by_cases hac : a = c
    · subst hac
      left
      apply setBreakpoint_planted_self hacc
      rcases ha with hp | ⟨-, hno⟩
      · exact Or.inl hp
      · exact Or.inr hno
    · rcases ha with hp | ⟨hmem, hno⟩
      · exact Or.inl ((setBreakpoint_planted_of_ne hacc hac).mpr hp)
      · refine Or.inr ⟨(List.mem_cons.mp hmem).resolve_left hac, ?_⟩
        rw [setBreakpoint_armed hacc]
        rintro (rfl | harmed)
        · exact hac rfl
        · exact hno harmed

theorem setAll_not_armed (hacc : d.os.memory.Accessible) {as : List (LPVOID b)} {a : LPVOID b}
    (ha : a ∉ as) (hno : ¬ d.Armed a) :
    ¬ (as.foldl (fun d a => d.setBreakpoint a) d).Armed a := by
  induction as generalizing d with
  | nil => exact hno
  | cons c as ih =>
    rw [List.mem_cons, not_or] at ha
    apply ih ((setBreakpoint_frame c d).accessible hacc) ha.2
    rw [setBreakpoint_armed hacc]
    rintro (rfl | harmed)
    · exact ha.1 rfl
    · exact hno harmed

/-! ## Restoring and erasing -/

theorem Clean.restoreBreakpoint_not_armed (h : Clean d) {a : LPVOID b} (ha : a ∈ d.breakpoints) :
    ¬ (d.restoreBreakpoint a).Armed a := by
  obtain ⟨x, hx⟩ := exists_filed ha
  by_cases harmed : d.Armed a
  · rw [restoreBreakpoint_of_armed h.accessible hx harmed, Armed, Memory.store_bytes,
      Function.update_self]
    exact h.stored a x hx
  · rwa [restoreBreakpoint_of_not_armed h.accessible harmed]

theorem restoreBreakpoint_planted (hacc : d.os.memory.Accessible) {a x : LPVOID b}
    (hx : (d.restoreBreakpoint a).Planted x) : d.Planted x := by
  by_cases harmed : d.Armed a
  · cases ho : d.breakpoints[a]? with
    | none => rwa [restoreBreakpoint_of_not_listed ho] at hx
    | some y =>
      rw [restoreBreakpoint_of_armed hacc ho harmed] at hx
      by_cases hxa : x = a
      · have hwriter : Function.update d.os.memory.writer a Writer.restoreBreakpoint x =
            .setBreakpoint := hx.2
        rw [hxa, Function.update_self] at hwriter
        cases hwriter
      · simpa only [Planted, Memory.store_bytes, Memory.store_writer,
          Function.update_of_ne hxa] using hx
  · rwa [restoreBreakpoint_of_not_armed hacc harmed] at hx

theorem Clean.restoreBreakpoint (h : Clean d) (a : LPVOID b) : Clean (d.restoreBreakpoint a) := by
  refine ⟨(restoreBreakpoint_frame a d).accessible h.accessible, ?_, ?_⟩
  · intro x hx
    rw [restoreBreakpoint_breakpoints]
    exact h.noOrphan x (restoreBreakpoint_planted h.accessible hx)
  · rw [restoreBreakpoint_breakpoints]
    exact h.stored

theorem Clean.erase (h : Clean d) {a : LPVOID b} (ha : ¬ d.Planted a) :
    Clean { d with breakpoints := d.breakpoints.erase a } := by
  refine ⟨h.accessible, ?_, ?_⟩
  · intro x hx
    have hne : a ≠ x := by
      rintro rfl
      exact ha hx
    rw [Std.TreeMap.mem_erase]
    exact ⟨fun heq => hne (Std.LawfulEqCmp.eq_of_compare heq), h.noOrphan x hx⟩
  · intro x y hy
    rw [Std.TreeMap.getElem?_erase] at hy
    split_ifs at hy
    exact h.stored x y hy

/-! ## Events -/

variable {script : Call b → Debugger b → List (LPVOID b) × BreakpointAction} {hThread : HANDLE}

theorem Clean.call (h : Clean d) (c : Call b) : Clean (d.call (scripted script) c).1 :=
  (h.setAll (script c d).1).of_same rfl rfl

theorem Clean.restorePending (h : Clean d) : Clean d.restorePending := by
  unfold Debugger.restorePending
  split_ifs
  · exact (h.of_hwFrame (setHardwareBreakpoint_frame _ d)).of_same rfl rfl
  · exact (h.setBreakpoint _).of_same rfl rfl
  · exact h

theorem Clean.handleStep (h : Clean d) (a : LPVOID b) :
    Clean (d.handleStep (scripted script) a hThread) := by
  simp only [Debugger.handleStep]
  split_ifs
  · refine Clean.of_controlFrame ?_ (answerStep_frame a hThread _ _)
    have hcall : Clean (d.restorePending.call (scripted script) (.onBreakpoint a hThread)).1 :=
      h.restorePending.call _
    unfold afterStep
    split_ifs
    · exact hcall.of_same rfl rfl
    · exact hcall
  · exact h.restorePending.of_same rfl rfl

theorem Clean.answerHardware (h : Clean d) (a : LPVOID b) (reg : DRReg)
    (bpType : BreakpointAction) : Clean (d.answerHardware a hThread reg bpType) := by
  cases bpType with
  | BREAK => exact h.of_hwFrame (clearHardwareBreakpoint_frame reg d)
  | SINGLE_STEP =>
    have hstep := h.of_controlFrame (enableSingleStep_frame hThread d)
    have hflag : Clean { d.enableSingleStep hThread with stepping := true } :=
      hstep.of_same rfl rfl
    exact hflag.of_hwFrame (clearHardwareBreakpoint_frame reg _)
  | RESTORE =>
    have h₁ : Clean (d.afterHardware a hThread reg) := h.of_same rfl rfl
    have h₂ := h₁.of_hwFrame (clearHardwareBreakpointOnThread_frame hThread reg _)
    rw [answerHardware_restore]
    exact (h₂.of_controlFrame (enableSingleStep_frame hThread _)).of_same rfl rfl

theorem Clean.handleHardware (h : Clean d) (code : DWORD) (a : LPVOID b) :
    Clean (d.handleHardware (scripted script) code a hThread) := by
  simp only [Debugger.handleHardware]
  split_ifs
  · exact (h.call _).answerHardware a _ _
  · exact h.call _

def scriptAt (script : Call b → Debugger b → List (LPVOID b) × BreakpointAction) (d : Debugger b)
    (e : ExceptionEvent b) : List (LPVOID b) × BreakpointAction :=
  script (.onBreakpoint e.ExceptionAddress d.os.handles.next) (d.hitState e)

/-- The callback sets the breakpoint just hit again and answers `BREAK`. -/
def Resets (script : Call b → Debugger b → List (LPVOID b) × BreakpointAction) (d : Debugger b)
    (e : ExceptionEvent b) : Prop :=
  (scriptAt script d e).2 = .BREAK ∧ e.ExceptionAddress ∈ (scriptAt script d e).1

def NoReset (script : Call b → Debugger b → List (LPVOID b) × BreakpointAction) (d : Debugger b) :
    Turn b → Prop
  | .event (.EXCEPTION e) => d.SoftwareHit e → ¬ d.Resets script e
  | _ => True

variable (script hThread) in
/-- A hit keeps `Clean` unless it is answered `BREAK` after the breakpoint was set again. -/
theorem Clean.handleBreakpoint (h : Clean d) {a : LPVOID b} (ha : a ∈ d.breakpoints) :
    let r := script (.onBreakpoint a hThread) ((d.restoreBreakpoint a).decrementIP hThread)
    (¬ (r.2 = .BREAK ∧ a ∈ r.1) → Clean (d.handleBreakpoint (scripted script) a hThread)) ∧
      (r.2 = .BREAK ∧ a ∈ r.1 →
        ¬ (d.handleBreakpoint (scripted script) a hThread).NoOrphan) := by
  obtain ⟨x, hx⟩ := exists_filed ha
  intro r
  let d₂ := (d.restoreBreakpoint a).decrementIP hThread
  have hf₂ : ControlFrame (d.restoreBreakpoint a) d₂ := decrementIP_frame hThread _
  have h₂ : Clean d₂ := (h.restoreBreakpoint a).of_controlFrame hf₂
  have hno₂ : ¬ d₂.Armed a := by
    rw [Armed, hf₂.memory]
    exact h.restoreBreakpoint_not_armed ha
  let d₃ := (d₂.call (scripted script) (.onBreakpoint a hThread)).1
  have h₃ : Clean d₃ := h₂.call _
  have he : d.handleBreakpoint (scripted script) a hThread = d₃.answerBreakpoint a hThread r.2 :=
    handleBreakpoint_of_listed hx
  rw [he]
  constructor
  · intro hgood
    refine Clean.of_controlFrame ?_ (answerBreakpoint_frame a hThread r.2 d₃)
    cases hr : r.2 with
    | BREAK =>
      have hmem : a ∉ r.1 := fun hmem => hgood ⟨hr, hmem⟩
      have hno₃ : ¬ d₃.Armed a := setAll_not_armed h₂.accessible hmem hno₂
      exact (h₃.erase (fun hp => hno₃ hp.1)).of_same rfl rfl
    | RESTORE => exact h₃.of_same rfl rfl
    | SINGLE_STEP => exact h₃.of_same rfl rfl
  · rintro ⟨hr, hmem⟩ hclean
    rw [hr] at hclean
    have hp₃ : d₃.Planted a := setAll_planted h₂.accessible (Or.inr ⟨hmem, hno₂⟩)
    have hlisted : a ∈ d₃.breakpoints.erase a := hclean a hp₃
    rw [Std.TreeMap.mem_erase] at hlisted
    exact hlisted.1 Std.ReflCmp.compare_self

theorem Clean.handleException_of_no_hit (h : Clean d) {e : ExceptionEvent b}
    (hhit : ¬ d.SoftwareHit e) : Clean (d.handleException (scripted script) e) := by
  cases ho : d.os.fails (.openThread e.dwThreadId) with
  | true =>
    rw [handleException_of_refused ho]
    exact h
  | false =>
    have h₁ : Clean (d.opened e.dwThreadId) := h.of_same rfl rfl
    rw [handleException_of_opened ho]
    refine Clean.of_same (d := (d.opened e.dwThreadId).dispatch _ e _) ?_ rfl rfl
    apply dispatch_elim
    case breakpoint =>
      intro hbp
      have ha : ¬ e.ExceptionAddress ∈ (d.opened e.dwThreadId).breakpoints :=
        fun ha => hhit ⟨ho, hbp, ha⟩
      rw [handleBreakpoint_of_not_listed (Std.TreeMap.getElem?_eq_none ha)]
      exact h₁
    case step => exact fun _ _ => h₁.handleStep _
    case hardware => exact fun _ _ => h₁.handleHardware _ _
    case other => exact fun c _ => h₁.call c

theorem Clean.handleException (h : Clean d) (e : ExceptionEvent b) :
    (d.NoReset script (.event (.EXCEPTION e)) →
        Clean (d.handleException (scripted script) e)) ∧
      (¬ d.NoReset script (.event (.EXCEPTION e)) →
        ¬ (d.handleException (scripted script) e).NoOrphan) := by
  by_cases hhit : d.SoftwareHit e
  · obtain ⟨ho, hbp, ha⟩ := hhit
    have h₁ : Clean (d.opened e.dwThreadId) := h.of_same rfl rfl
    have ha₁ : e.ExceptionAddress ∈ (d.opened e.dwThreadId).breakpoints := ha
    obtain ⟨hgood, hbad⟩ := h₁.handleBreakpoint script d.os.handles.next ha₁
    rw [handleException_of_opened ho, dispatch_breakpoint hbp]
    refine ⟨fun hno => (hgood (hno ⟨ho, hbp, ha⟩)).of_same rfl rfl, fun hres => ?_⟩
    exact hbad (by_contra fun hcon => hres (fun _ => hcon))
  · exact ⟨fun _ => h.handleException_of_no_hit hhit,
      fun hres => absurd (fun hc => absurd hc hhit) hres⟩

theorem Clean.handleEvent (h : Clean d) (ev : DebugEvent b) :
    (d.NoReset script (.event ev) → Clean (d.handleEvent (scripted script) ev).1) ∧
      (¬ d.NoReset script (.event ev) →
        ¬ (d.handleEvent (scripted script) ev).1.NoOrphan) := by
  by_cases hev : ∃ e, ev = .EXCEPTION e
  · obtain ⟨e, rfl⟩ := hev
    exact h.handleException e
  · refine ⟨fun _ => ?_, fun hno => absurd ?_ hno⟩
    · apply handleEvent_elim
      case exception => exact fun e he => absurd ⟨e, he⟩ hev
      case refused => exact h
      case call => exact fun c _ => h.call c
      case started =>
        intro base c _
        have h₁ : Clean { d with baseImageBase := base } := h.of_same rfl rfl
        exact h₁.call c
      case created =>
        intro tid c thread _
        have h₁ : Clean (d.opened tid) := h.of_same rfl rfl
        exact (h₁.call c).of_same rfl rfl
    · cases ev with
      | EXCEPTION e => exact absurd ⟨e, rfl⟩ hev
      | _ => trivial

/-- What the debuggee may do between two events: it cannot make a byte look as if
`setBreakpoint` had written it. -/
structure Unforged (d : Debugger b) (os : Os b) : Prop where
  accessible : os.memory.Accessible
  planted : ∀ a, os.memory.bytes a = int3 → os.memory.writer a = .setBreakpoint → d.Planted a

theorem Clean.debuggee (h : Clean d) {os : Os b} (hu : d.Unforged os) :
    Clean { d with os := os } :=
  ⟨hu.accessible, fun a ha => h.noOrphan a (hu.planted a ha.1 ha.2), h.stored⟩

theorem Clean.step (h : Clean d) {turn : Turn b}
    (hstep : LoopStep Unforged (scripted script) d turn d') :
    (d.NoReset script turn → Clean d') ∧ (¬ d.NoReset script turn → ¬ d'.NoOrphan) := by
  cases hstep with
  | debuggee hu => exact ⟨fun _ => h.debuggee hu, fun hno => absurd trivial hno⟩
  | event ev _ => exact h.handleEvent ev

end Debugger

open Debugger

/-- In every run of the loop in which no hit is answered `BREAK` by a callback
that has set the breakpoint again, every int3 written by `setBreakpoint` is
listed; and from every state of such a run, the next turn keeps it so exactly if
it is not such a hit. -/
theorem no_orphan {b : Build} {script : Call b → Debugger b → List (LPVOID b) × BreakpointAction}
    {d d' : Debugger b} {turns : List (Turn b)} (hstart : d.Clean)
    (hrun : Run (Restrict (LoopStep Unforged (scripted script)) (NoReset script)) d turns d') :
    d'.NoOrphan ∧ ∀ turn d'', LoopStep Unforged (scripted script) d' turn d'' →
      (d''.NoOrphan ↔ d'.NoReset script turn) := by
  have hclean : d'.Clean := hrun.invariant (fun _ _ _ h hs => (h.step hs.1).1 hs.2) hstart
  refine ⟨hclean.noOrphan, fun turn d'' hstep => ?_⟩
  obtain ⟨hgood, hbad⟩ := hclean.step hstep
  constructor
  · intro hno
    by_contra hres
    exact hbad hres hno
  · intro hno
    exact (hgood hno).noOrphan

theorem no_orphan_two_breakpoints :
    let script : Call .x64 → Debugger .x64 → List (LPVOID .x64) × BreakpointAction :=
      fun _ _ => ([9, 5], .RESTORE)
    let d : Debugger .x64 := (new (.ofCode (fun _ => 0x90) [7])).setBreakpoint 5
    let d₁ := d.handleException (scripted script) ⟨EXCEPTION_BREAKPOINT, 5, 7, 0, 0⟩
    let d₂ := d₁.handleException (scripted script) ⟨EXCEPTION_SINGLE_STEP, 6, 7, 0, 0⟩
    d₂.Planted 5 ∧ d₂.Planted 9 ∧ d₂.NoOrphan := by
  intro script d d₁ d₂
  have hstep : ∀ (d : Debugger .x64) (e : ExceptionEvent .x64), d.dbgLoop = true →
      Restrict (LoopStep Unforged (scripted script)) (NoReset script) d (.event (.EXCEPTION e))
        (d.handleException (scripted script) e) := by
    refine fun d e hloop => ⟨.event (.EXCEPTION e) hloop, fun _ hres => ?_⟩
    cases hres.1
  have h₁ := hstep d ⟨EXCEPTION_BREAKPOINT, 5, 7, 0, 0⟩ (by decide)
  have h₂ := hstep d₁ ⟨EXCEPTION_SINGLE_STEP, 6, 7, 0, 0⟩ (by decide)
  have hno := no_orphan ((Clean.ofCode _ _).setBreakpoint 5) (.cons h₁ (.cons h₂ (.nil _)))
  refine ⟨?_, ?_, hno.1⟩
  · unfold Planted
    decide
  · unfold Planted
    decide

/-- The callback sets 5 again at the hit on 5 and answers `BREAK`. -/
theorem reset_then_break_orphans :
    let script : Call .x64 → Debugger .x64 → List (LPVOID .x64) × BreakpointAction :=
      fun _ _ => ([5], .BREAK)
    let d : Debugger .x64 := (new (.ofCode (fun _ => 0x90) [7])).setBreakpoint 5
    let d' := loop (scripted script) [(id, .EXCEPTION ⟨EXCEPTION_BREAKPOINT, 5, 7, 0, 0⟩)] d
    d.Clean ∧ d'.Planted 5 ∧ 5 ∉ d'.breakpoints := by
  refine ⟨(Clean.ofCode _ _).setBreakpoint 5, ?_, ?_⟩
  · unfold Planted
    decide
  · decide

end RoboDbg
