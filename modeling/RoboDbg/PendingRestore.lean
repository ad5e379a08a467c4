import RoboDbg.Foundation.Runs
import RoboDbg.Loop

/-!
# The pending restore

Between a hit and the step after it, one address may be listed without holding
an int3; the flags say which. `Rearmable` states that the flags account for
every disarmed entry. A software hit keeps this when it finds no other restore
pending and is answered in a way that records the address.
-/

namespace RoboDbg

variable {b : Build}

namespace Debugger

def AllArmed (d : Debugger b) : Prop := ∀ a ∈ d.breakpoints, d.Armed a

def Rearming (d : Debugger b) (a : LPVOID b) : Prop :=
  d.needToRestoreBreakpoint = true ∧ d.restoreHwBP = false ∧ d.bpAddrToRestore = a

structure Rearmable (d : Debugger b) : Prop where
  accessible : d.os.memory.Accessible
  armed_or : ∀ a ∈ d.breakpoints, d.Armed a ∨ d.Rearming a
  idle : d.stepping = false → d.AllArmed
  hardware : d.restoreHwBP = true → d.needToRestoreBreakpoint = true ∧ d.stepping = true

/-- The event is handled as a hit of a listed breakpoint. -/
def SoftwareHit (d : Debugger b) (e : ExceptionEvent b) : Prop :=
  d.os.fails (.openThread e.dwThreadId) = false ∧ e.ExceptionCode = EXCEPTION_BREAKPOINT ∧
    e.ExceptionAddress ∈ d.breakpoints

/-- The state in which `onBreakpoint` is called for a hit. -/
def hitState (d : Debugger b) (e : ExceptionEvent b) : Debugger b :=
  ((d.opened e.dwThreadId).restoreBreakpoint e.ExceptionAddress).decrementIP d.os.handles.next

def hitAnswer (ans : Call b → Debugger b → BreakpointAction) (d : Debugger b)
    (e : ExceptionEvent b) : BreakpointAction :=
  ans (.onBreakpoint e.ExceptionAddress d.os.handles.next) (d.hitState e)

/-- A hit that no earlier restore is lost to and whose own is recorded. -/
def SafeHit (d : Debugger b) (a : LPVOID b) (bpType : BreakpointAction) : Prop :=
  (d.needToRestoreBreakpoint = false ∧ bpType ≠ .SINGLE_STEP) ∨ d.Rearming a

def SafeEvent (ans : Call b → Debugger b → BreakpointAction) (d : Debugger b) :
    DebugEvent b → Prop
  | .EXCEPTION e => d.SoftwareHit e → d.SafeHit e.ExceptionAddress (d.hitAnswer ans e)
  | _ => True

structure SameRestore (d d' : Debugger b) : Prop where
  memory : d'.os.memory = d.os.memory
  breakpoints : d'.breakpoints = d.breakpoints
  needToRestoreBreakpoint : d'.needToRestoreBreakpoint = d.needToRestoreBreakpoint
  restoreHwBP : d'.restoreHwBP = d.restoreHwBP
  bpAddrToRestore : d'.bpAddrToRestore = d.bpAddrToRestore
  lastBpType : d'.lastBpType = d.lastBpType
  stepping : d'.stepping = d.stepping

theorem HwFrame.sameRestore {d d' : Debugger b} (h : HwFrame d d') : SameRestore d d' := by
  constructor <;> rw [h.rest]

theorem ControlFrame.sameRestore {d d' : Debugger b} (h : ControlFrame d d') :
    SameRestore d d' := by
  constructor <;> rw [h.rest]

theorem SameRestore.rearmable {d d' : Debugger b} (hs : SameRestore d d') (h : Rearmable d) :
    Rearmable d' := by
  obtain ⟨hmem, hbps, hneed, hhw, haddr, -, hstep⟩ := hs
  obtain ⟨hacc, harmed, hidle, hhardware⟩ := h
  constructor
  · rwa [hmem]
  · unfold Armed Rearming
    rw [hmem, hbps, hneed, hhw, haddr]
    exact harmed
  · unfold AllArmed Armed
    rw [hmem, hbps, hstep]
    exact hidle
  · rwa [hhw, hneed, hstep]

variable {d : Debugger b}

theorem rearmable_of_allArmed (hacc : d.os.memory.Accessible) (h : d.AllArmed)
    (hhw : d.restoreHwBP = true → d.needToRestoreBreakpoint = true ∧ d.stepping = true) :
    Rearmable d :=
  ⟨hacc, fun a ha => Or.inl (h a ha), fun _ => h, hhw⟩

theorem Rearmable.restoreHwBP_of_not_needed (h : Rearmable d)
    (hneed : d.needToRestoreBreakpoint = false) : d.restoreHwBP = false := by
  cases hhw : d.restoreHwBP with
  | false => rfl
  | true =>
    rw [(h.hardware hhw).1] at hneed
    cases hneed

theorem Rearmable.restoreHwBP_of_idle (h : Rearmable d) (hstep : d.stepping = false) :
    d.restoreHwBP = false := by
  cases hhw : d.restoreHwBP with
  | false => rfl
  | true =>
    rw [(h.hardware hhw).2] at hstep
    cases hstep

/-! ## A software hit -/

theorem Rearmable.armed_of_ne (h : Rearmable d) {a x : LPVOID b} {bpType : BreakpointAction}
    (hsafe : d.SafeHit a bpType) (hx : x ∈ d.breakpoints) (hne : x ≠ a) : d.Armed x := by
  rcases h.armed_or x hx with harmed | ⟨hneed, -, haddr⟩
  · exact harmed
  · rcases hsafe with ⟨hnone, -⟩ | ⟨-, -, haddr'⟩
    · rw [hneed] at hnone
      cases hnone
    · exact absurd (haddr.symm.trans haddr') hne

theorem Rearmable.restoreHwBP_of_safe (h : Rearmable d) {a : LPVOID b} {bpType : BreakpointAction}
    (hsafe : d.SafeHit a bpType) : d.restoreHwBP = false := by
  rcases hsafe with ⟨hneed, -⟩ | ⟨-, hhw, -⟩
  · exact h.restoreHwBP_of_not_needed hneed
  · exact hhw

theorem Rearmable.afterHit (h : Rearmable d) {a : LPVOID b} {bpType : BreakpointAction}
    (hsafe : d.SafeHit a bpType) : Rearmable ((d.restoreBreakpoint a).afterHit a bpType) := by
  have hf := restoreBreakpoint_frame a d
  have hacc := hf.accessible h.accessible
  have hhw : (d.restoreBreakpoint a).restoreHwBP = false := by
    rw [hf.rest]
    exact h.restoreHwBP_of_safe hsafe
  have harmed : ∀ x ∈ d.breakpoints, x ≠ a → (d.restoreBreakpoint a).Armed x :=
    fun x hx hne =>
      (restoreBreakpoint_armed_of_ne h.accessible hne).mpr (h.armed_of_ne hsafe hx hne)
  have hnohw : ∀ {p : Prop}, (d.restoreBreakpoint a).restoreHwBP = true → p := by
    intro p hp
    rw [hhw] at hp
    cases hp
  cases bpType with
  | BREAK =>
    have hall : ((d.restoreBreakpoint a).afterHit a .BREAK).AllArmed := by
      intro x hx
      have hx' : x ∈ (d.restoreBreakpoint a).breakpoints.erase a := hx
      rw [Std.TreeMap.mem_erase, restoreBreakpoint_breakpoints] at hx'
      refine harmed x hx'.2 ?_
      rintro rfl
      exact hx'.1 Std.ReflCmp.compare_self
    exact rearmable_of_allArmed hacc hall hnohw
  | RESTORE =>
    refine ⟨hacc, fun x hx => ?_, (fun hstep => by cases hstep), hnohw⟩
    by_cases hxa : x = a
    · exact Or.inr ⟨rfl, hhw, hxa.symm⟩
    · have hx' : x ∈ (d.restoreBreakpoint a).breakpoints := hx
      rw [restoreBreakpoint_breakpoints] at hx'
      exact Or.inl (harmed x hx' hxa)
  | SINGLE_STEP =>
    have hre : d.Rearming a := by
      rcases hsafe with ⟨-, hne⟩ | hre
      · exact absurd rfl hne
      · exact hre
    refine ⟨hacc, fun x hx => ?_, (fun hstep => by cases hstep), hnohw⟩
    by_cases hxa : x = a
    · refine Or.inr ⟨?_, hhw, ?_⟩
      · change (d.restoreBreakpoint a).needToRestoreBreakpoint = true
        rw [hf.rest]
        exact hre.1
      · change (d.restoreBreakpoint a).bpAddrToRestore = x
        rw [hf.rest, hxa]
        exact hre.2.2
    · have hx' : x ∈ (d.restoreBreakpoint a).breakpoints := hx
      rw [restoreBreakpoint_breakpoints] at hx'
      exact Or.inl (harmed x hx' hxa)

variable {ans : Call b → Debugger b → BreakpointAction} {hThread : HANDLE}

theorem handleBreakpoint_sameRestore {a : LPVOID b} (ha : a ∈ d.breakpoints) :
    SameRestore ((d.restoreBreakpoint a).afterHit a
        (ans (.onBreakpoint a hThread) ((d.restoreBreakpoint a).decrementIP hThread)))
      (d.handleBreakpoint (answering ans) a hThread) := by
  obtain ⟨x, hx⟩ := exists_filed ha
  rw [handleBreakpoint_of_listed hx, call_answering]
  generalize ans (.onBreakpoint a hThread) ((d.restoreBreakpoint a).decrementIP hThread) = bpType
  have hf := decrementIP_frame hThread (d.restoreBreakpoint a)
  have hanswer := (answerBreakpoint_frame a hThread bpType
    { (d.restoreBreakpoint a).decrementIP hThread with
      trace := ((d.restoreBreakpoint a).decrementIP hThread).trace ++
        [(.onBreakpoint a hThread, bpType)] }).sameRestore
  refine ⟨hanswer.memory.trans ?_, hanswer.breakpoints.trans ?_,
    hanswer.needToRestoreBreakpoint.trans ?_, hanswer.restoreHwBP.trans ?_,
    hanswer.bpAddrToRestore.trans ?_, hanswer.lastBpType.trans ?_,
    hanswer.stepping.trans ?_⟩ <;>
    cases bpType <;> simp only [Debugger.afterHit] <;> rw [hf.rest]

/-! ## A completed step -/

theorem setBreakpoint_allArmed (hacc : d.os.memory.Accessible) {a : LPVOID b}
    (h : ∀ x ∈ d.breakpoints, x = a ∨ d.Armed x) : (d.setBreakpoint a).AllArmed := by
  intro x hx
  rw [setBreakpoint_armed hacc]
  rcases mem_setBreakpoint hacc hx with rfl | hx
  · exact Or.inl rfl
  · exact h x hx

theorem Rearmable.restorePending (h : Rearmable d) :
    d.restorePending.AllArmed ∧ d.restorePending.os.memory.Accessible ∧
      d.restorePending.restoreHwBP = false := by
  unfold Debugger.restorePending
  by_cases hneed : d.needToRestoreBreakpoint = true
  · by_cases hhw : d.restoreHwBP = true
    · have hf := (setHardwareBreakpoint_frame d.hwBPToRestore d).sameRestore
      have hall : d.AllArmed := by
        intro x hx
        rcases h.armed_or x hx with harmed | ⟨-, hno, -⟩
        · exact harmed
        · rw [hhw] at hno
          cases hno
      rw [if_pos hneed, if_pos hhw]
      refine ⟨?_, ?_, rfl⟩
      · unfold AllArmed Armed
        rw [hf.memory, hf.breakpoints]
        exact hall
      · change (d.setHardwareBreakpoint d.hwBPToRestore).1.os.memory.Accessible
        rw [hf.memory]
        exact h.accessible
    · have hf := setBreakpoint_frame d.bpAddrToRestore d
      have hall : (d.setBreakpoint d.bpAddrToRestore).AllArmed := by
        apply setBreakpoint_allArmed h.accessible
        intro x hx
        rcases h.armed_or x hx with harmed | ⟨-, -, haddr⟩
        · exact Or.inr harmed
        · exact Or.inl haddr.symm
      rw [if_pos hneed, if_neg hhw]
      refine ⟨hall, hf.accessible h.accessible, ?_⟩
      change (d.setBreakpoint d.bpAddrToRestore).restoreHwBP = false
      rw [hf.rest]
      simpa using hhw
  · have hneed' : d.needToRestoreBreakpoint = false := by simpa using hneed
    rw [if_neg hneed]
    refine ⟨fun x hx => ?_, h.accessible, h.restoreHwBP_of_not_needed hneed'⟩
    rcases h.armed_or x hx with harmed | ⟨hpending, -, -⟩
    · exact harmed
    · exact absurd hpending hneed

theorem SameRestore.allArmed {d d' : Debugger b} (hs : SameRestore d d') (h : d.AllArmed) :
    d'.AllArmed := by
  unfold AllArmed Armed
  rw [hs.memory, hs.breakpoints]
  exact h

/-- All listed addresses are armed and the hardware flag is not left behind. -/
structure Settled (d : Debugger b) : Prop where
  accessible : d.os.memory.Accessible
  allArmed : d.AllArmed
  hardware : d.restoreHwBP = true → d.needToRestoreBreakpoint = true ∧ d.stepping = true

theorem Settled.rearmable (h : Settled d) : Rearmable d :=
  rearmable_of_allArmed h.accessible h.allArmed h.hardware

theorem SameRestore.settled {d d' : Debugger b} (hs : SameRestore d d') (h : Settled d) :
    Settled d' := by
  refine ⟨?_, hs.allArmed h.allArmed, ?_⟩
  · rw [hs.memory]
    exact h.accessible
  · rw [hs.restoreHwBP, hs.needToRestoreBreakpoint, hs.stepping]
    exact h.hardware

theorem Rearmable.handleStep (h : Rearmable d) (a : LPVOID b) :
    Settled (d.handleStep (answering ans) a hThread) := by
  obtain ⟨hall, hacc, hhw⟩ := h.restorePending
  simp only [Debugger.handleStep, call_answering]
  split_ifs
  · generalize ans (.onBreakpoint a hThread) d.restorePending = bpType
    refine (answerStep_frame a hThread bpType _).sameRestore.settled ?_
    unfold afterStep
    split_ifs
    · refine ⟨hacc, hall, fun hp => ?_⟩
      exact ⟨rfl, rfl⟩
    · refine ⟨hacc, hall, fun hp => ?_⟩
      have hp' : d.restorePending.restoreHwBP = true := hp
      rw [hhw] at hp'
      cases hp'
  · refine ⟨hacc, hall, fun hp => ?_⟩
    have hp' : d.restorePending.restoreHwBP = true := hp
    rw [hhw] at hp'
    cases hp'

/-! ## A hardware hit -/

theorem Settled.answerHardware (h : Settled d) (hidle : d.restoreHwBP = false) (a : LPVOID b)
    (reg : DRReg) (bpType : BreakpointAction) :
    Settled (d.answerHardware a hThread reg bpType) := by
  cases bpType with
  | BREAK => exact (clearHardwareBreakpoint_frame reg d).sameRestore.settled h
  | SINGLE_STEP =>
    have hs : Settled { d.enableSingleStep hThread with stepping := true } := by
      have hf := (enableSingleStep_frame hThread d).sameRestore
      refine ⟨(hf.settled h).accessible, (hf.settled h).allArmed, fun hp => ?_⟩
      have hp' : (d.enableSingleStep hThread).restoreHwBP = true := hp
      rw [hf.restoreHwBP, hidle] at hp'
      cases hp'
    exact (clearHardwareBreakpoint_frame reg _).sameRestore.settled hs
  | RESTORE =>
    let d₁ := d.afterHardware a hThread reg
    have hf₂ := (clearHardwareBreakpointOnThread_frame hThread reg d₁).sameRestore
    have hf₃ := (enableSingleStep_frame hThread
      (d₁.clearHardwareBreakpointOnThread hThread reg).1).sameRestore
    have hall : d₁.AllArmed := h.allArmed
    have hacc : d₁.os.memory.Accessible := h.accessible
    rw [answerHardware_restore]
    refine ⟨?_, hf₃.allArmed (hf₂.allArmed hall), fun _ => ⟨?_, rfl⟩⟩
    · exact (congrArg Memory.Accessible (hf₃.memory.trans hf₂.memory)).mpr hacc
    · exact hf₃.needToRestoreBreakpoint.trans hf₂.needToRestoreBreakpoint

theorem Rearmable.handleHardware (h : Rearmable d) (hstep : d.stepping = false) (code : DWORD)
    (a : LPVOID b) : Settled (d.handleHardware (answering ans) code a hThread) := by
  have hhw := h.restoreHwBP_of_idle hstep
  have hs : Settled d := ⟨h.accessible, h.idle hstep, h.hardware⟩
  simp only [Debugger.handleHardware, call_answering]
  have hcall : ∀ trace, Settled { d with trace := trace } :=
    fun _ => ⟨hs.accessible, hs.allArmed, hs.hardware⟩
  have hanswer : ∀ trace reg bpType,
      Settled (answerHardware a hThread reg bpType { d with trace := trace }) :=
    fun trace reg bpType => (hcall trace).answerHardware hhw a reg bpType
  split_ifs
  · exact hanswer _ _ _
  · exact hcall _

/-! ## Events -/

theorem SameRestore.refl (d : Debugger b) : SameRestore d d := ⟨rfl, rfl, rfl, rfl, rfl, rfl, rfl⟩

theorem SameRestore.trans {d d' d'' : Debugger b} (h : SameRestore d d') (h' : SameRestore d' d'') :
    SameRestore d d'' :=
  ⟨h'.memory.trans h.memory, h'.breakpoints.trans h.breakpoints,
    h'.needToRestoreBreakpoint.trans h.needToRestoreBreakpoint,
    h'.restoreHwBP.trans h.restoreHwBP, h'.bpAddrToRestore.trans h.bpAddrToRestore,
    h'.lastBpType.trans h.lastBpType, h'.stepping.trans h.stepping⟩

theorem sameRestore_opened (tid : DWORD) (d : Debugger b) : SameRestore d (d.opened tid) :=
  ⟨rfl, rfl, rfl, rfl, rfl, rfl, rfl⟩

theorem sameRestore_closing (h : HANDLE) (d : Debugger b) : SameRestore d (d.closing h) :=
  ⟨rfl, rfl, rfl, rfl, rfl, rfl, rfl⟩

theorem sameRestore_call (c : Call b) (d : Debugger b) :
    SameRestore d (d.call (answering ans) c).1 :=
  ⟨rfl, rfl, rfl, rfl, rfl, rfl, rfl⟩

theorem Rearmable.singleStep (h : Rearmable d) {e : ExceptionEvent b}
    (ho : d.os.fails (.openThread e.dwThreadId) = false)
    (hcode : e.ExceptionCode = EXCEPTION_SINGLE_STEP) :
    Settled (d.handleException (answering ans) e) := by
  have h₁ : Rearmable (d.opened e.dwThreadId) := (sameRestore_opened _ d).rearmable h
  rw [handleException_of_opened ho]
  refine (sameRestore_closing _ _).settled ?_
  cases hs : (d.opened e.dwThreadId).stepping with
  | true =>
    rw [dispatch_step hcode hs]
    exact h₁.handleStep _
  | false =>
    rw [dispatch_hardware hcode hs]
    exact h₁.handleHardware hs _ _

theorem handleException_sameRestore {e : ExceptionEvent b} (hhit : ¬ d.SoftwareHit e)
    (hss : e.ExceptionCode ≠ EXCEPTION_SINGLE_STEP) :
    SameRestore d (d.handleException (answering ans) e) := by
  cases ho : d.os.fails (.openThread e.dwThreadId) with
  | true =>
    rw [handleException_of_refused ho]
    exact .refl d
  | false =>
    rw [handleException_of_opened ho]
    refine (sameRestore_opened e.dwThreadId d).trans (.trans ?_ (sameRestore_closing _ _))
    apply dispatch_elim
    case breakpoint =>
      intro hbp
      have ha : ¬ e.ExceptionAddress ∈ (d.opened e.dwThreadId).breakpoints :=
        fun ha => hhit ⟨ho, hbp, ha⟩
      rw [handleBreakpoint_of_not_listed (Std.TreeMap.getElem?_eq_none ha)]
      exact .refl _
    case step => exact fun hcode => absurd hcode hss
    case hardware => exact fun hcode => absurd hcode hss
    case other => exact fun c _ => sameRestore_call c _

theorem hit_sameRestore {e : ExceptionEvent b} (hhit : d.SoftwareHit e) :
    SameRestore (((d.opened e.dwThreadId).restoreBreakpoint e.ExceptionAddress).afterHit
        e.ExceptionAddress (d.hitAnswer ans e)) (d.handleException (answering ans) e) := by
  obtain ⟨ho, hbp, ha⟩ := hhit
  have ha₁ : e.ExceptionAddress ∈ (d.opened e.dwThreadId).breakpoints := ha
  rw [handleException_of_opened ho, dispatch_breakpoint hbp]
  exact (handleBreakpoint_sameRestore ha₁).trans (sameRestore_closing _ _)

theorem Rearmable.hit (h : Rearmable d) {e : ExceptionEvent b} (hhit : d.SoftwareHit e)
    (hsafe : d.SafeHit e.ExceptionAddress (d.hitAnswer ans e)) :
    Rearmable (d.handleException (answering ans) e) := by
  have h₁ : Rearmable (d.opened e.dwThreadId) := (sameRestore_opened _ d).rearmable h
  have hsafe₁ : (d.opened e.dwThreadId).SafeHit e.ExceptionAddress (d.hitAnswer ans e) := hsafe
  exact (hit_sameRestore hhit).rearmable (h₁.afterHit hsafe₁)

theorem Rearmable.handleException (h : Rearmable d) {e : ExceptionEvent b}
    (hsafe : d.SafeEvent ans (.EXCEPTION e)) :
    Rearmable (d.handleException (answering ans) e) := by
  by_cases hhit : d.SoftwareHit e
  · exact h.hit hhit (hsafe hhit)
  · by_cases hss : e.ExceptionCode = EXCEPTION_SINGLE_STEP
    · cases ho : d.os.fails (.openThread e.dwThreadId) with
      | true =>
        rw [handleException_of_refused ho]
        exact h
      | false => exact (h.singleStep ho hss).rearmable
    · exact (handleException_sameRestore hhit hss).rearmable h

theorem handleEvent_sameRestore {ev : DebugEvent b} (hev : ∀ e, ev ≠ .EXCEPTION e) :
    SameRestore d (d.handleEvent (answering ans) ev).1 := by
  apply handleEvent_elim
  case exception => exact fun e he => absurd he (hev e)
  case refused => exact .refl d
  case call => exact fun c _ => sameRestore_call c d
  case started => exact fun base c _ => ⟨rfl, rfl, rfl, rfl, rfl, rfl, rfl⟩
  case created => exact fun tid c thread _ => ⟨rfl, rfl, rfl, rfl, rfl, rfl, rfl⟩

theorem Rearmable.handleEvent (h : Rearmable d) {ev : DebugEvent b} (hsafe : d.SafeEvent ans ev) :
    Rearmable (d.handleEvent (answering ans) ev).1 := by
  by_cases hev : ∃ e, ev = .EXCEPTION e
  · obtain ⟨e, rfl⟩ := hev
    exact h.handleException hsafe
  · exact (handleEvent_sameRestore (fun e he => hev ⟨e, he⟩)).rearmable h

/-! ## Runs -/

/-- What the debuggee may do between two events: anything but change a byte at a
listed address or take its memory away. -/
structure Undisturbed (d : Debugger b) (os : Os b) : Prop where
  accessible : os.memory.Accessible
  bytes : ∀ a ∈ d.breakpoints, os.memory.bytes a = d.os.memory.bytes a

theorem Rearmable.debuggee (h : Rearmable d) {os : Os b} (hu : d.Undisturbed os) :
    Rearmable { d with os := os } := by
  refine ⟨hu.accessible, fun a ha => ?_, fun hstep a ha => ?_, h.hardware⟩
  · rcases h.armed_or a ha with harmed | hre
    · exact Or.inl ((hu.bytes a ha).trans harmed)
    · exact Or.inr hre
  · exact (hu.bytes a ha).trans (h.idle hstep a ha)

end Debugger

inductive Turn (b : Build)
  | debuggee (os : Os b)
  | event (ev : DebugEvent b)

/-- The turns of the loop, where `env` says what the debuggee may do between events. -/
inductive LoopStep (env : Debugger b → Os b → Prop) (cb : Callbacks b) :
    Debugger b → Turn b → Debugger b → Prop
  | debuggee {d : Debugger b} {os : Os b} (h : env d os) :
      LoopStep env cb d (.debuggee os) { d with os := os }
  | event {d : Debugger b} (ev : DebugEvent b) (h : d.dbgLoop = true) :
      LoopStep env cb d (.event ev) (d.handleEvent cb ev).1

open Runs

/-- Every execution of `loop` is a run of these steps. -/
theorem rounds_run {env : Debugger b → Os b → Prop} {cb : Callbacks b}
    {evs : List ((Os b → Os b) × DebugEvent b)}
    (h : ∀ p ∈ evs, ∀ d : Debugger b, env d (p.1 d.os)) (d : Debugger b) :
    ∃ turns, Run (LoopStep env cb) d turns (Debugger.rounds cb evs d) := by
  induction evs generalizing d with
  | nil => exact ⟨[], .nil d⟩
  | cons p evs ih =>
    obtain ⟨meanwhile, ev⟩ := p
    by_cases hloop : d.dbgLoop = true
    · let r := Debugger.handleEvent cb ev { d with os := meanwhile d.os }
      have hrounds : Debugger.rounds cb ((meanwhile, ev) :: evs) d =
          if r.2 = true then r.1 else Debugger.rounds cb evs r.1 := by
        rw [Debugger.rounds, if_pos hloop]
      have hd : LoopStep env cb d _ _ := .debuggee (h _ List.mem_cons_self d)
      have he : LoopStep env cb { d with os := meanwhile d.os } (.event ev) r.1 := .event ev hloop
      rw [hrounds]
      by_cases hret : r.2 = true
      · rw [if_pos hret]
        exact ⟨_, .cons hd (.cons he (.nil _))⟩
      · obtain ⟨turns, hrun⟩ := ih (fun q hq => h q (List.mem_cons_of_mem _ hq)) r.1
        rw [if_neg hret]
        exact ⟨_, .cons hd (.cons he hrun)⟩
    · rw [Debugger.rounds, if_neg hloop]
      exact ⟨[], .nil d⟩

end RoboDbg
