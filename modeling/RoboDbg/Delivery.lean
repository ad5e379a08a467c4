import RoboDbg.Loop

/-!
# Delivery of hardware hits

A hit of a slot is reported as a single step. The loop takes it for the end of a
pending step when `stepping` is set, and otherwise looks for the first enabled
slot of any listed thread whose address is the exception address. A hit is
delivered for the slot that fired exactly when neither goes astray.
-/

namespace RoboDbg

variable {b : Build}

def Call.isHardware : Call b → Bool
  | .onHardwareBreakpoint _ _ _ => true
  | _ => false

namespace Debugger

def deliveries (d : Debugger b) : List (Call b × BreakpointAction) :=
  d.trace.filter (fun c => c.1.isHardware)

/-- Slot `i` of the event's thread fired: an instruction breakpoint at its own
address, a data breakpoint at whatever instruction came next. -/
def Fired (d : Debugger b) (e : ExceptionEvent b) (i : Fin 4) : Prop :=
  ∃ s, d.slots e.dwThreadId i = some s ∧ (s.type = .EXECUTE → e.ExceptionAddress = s.address)

/-- Handling the event makes one hardware callback, with the register and a
handle of the event's thread, and after a `BREAK` the slot is disabled. -/
def Delivered (d d' : Debugger b) (e : ExceptionEvent b) (i : Fin 4) : Prop :=
  ∃ bpType, d'.deliveries = d.deliveries ++
      [(.onHardwareBreakpoint e.ExceptionAddress d.os.handles.next (.ofSlot i), bpType)] ∧
    (bpType = .BREAK → d'.slots e.dwThreadId i = none)

def KeepsSystem (cb : Callbacks b) : Prop :=
  ∀ c d, d.os.Reliable →
    (cb c d).1.os.Reliable ∧ (cb c d).1.os.processThreads = d.os.processThreads

variable {cb : Callbacks b} {d : Debugger b}

theorem restorePending_trace (d : Debugger b) : d.restorePending.trace = d.trace := by
  unfold restorePending
  split_ifs
  · exact (setHardwareBreakpoint_frame _ _).trace
  · exact (setBreakpoint_frame _ _).trace
  · rfl

theorem answerStep_trace (a : LPVOID b) (hThread : HANDLE) (bpType : BreakpointAction) :
    (d.answerStep a hThread bpType).trace = d.trace := by
  cases bpType with
  | BREAK => rfl
  | RESTORE => exact (enableSingleStep_frame hThread _).trace
  | SINGLE_STEP => exact (enableSingleStep_frame hThread _).trace

variable (cb d) in
theorem trace_handleStep (a : LPVOID b) (hThread : HANDLE) :
    (d.handleStep cb a hThread).trace = d.trace ++
      if d.restorePending.lastBpType = BreakpointAction.SINGLE_STEP.toInt then
        [(.onBreakpoint a hThread, (d.restorePending.call cb (.onBreakpoint a hThread)).2)]
      else [] := by
  simp only [handleStep]
  split_ifs
  · rw [answerStep_trace, ← restorePending_trace d]
    rfl
  · rw [List.append_nil]
    exact restorePending_trace d

variable (cb d) in
theorem deliveries_handleStep (a : LPVOID b) (hThread : HANDLE) :
    (d.handleStep cb a hThread).deliveries = d.deliveries := by
  rw [deliveries, trace_handleStep, List.filter_append]
  split_ifs
  · exact List.append_nil _
  · exact List.append_nil _

theorem answerHardware_trace (a : LPVOID b) (hThread : HANDLE) (reg : DRReg)
    (bpType : BreakpointAction) : (d.answerHardware a hThread reg bpType).trace = d.trace := by
  cases bpType with
  | BREAK => exact (clearHardwareBreakpoint_frame reg d).trace
  | SINGLE_STEP =>
    exact (clearHardwareBreakpoint_frame reg _).trace.trans (enableSingleStep_frame hThread d).trace
  | RESTORE =>
    exact (enableSingleStep_frame hThread _).trace.trans
      (clearHardwareBreakpointOnThread_frame hThread reg _).trace

variable (cb d) in
/-- Outside a pending step one callback is made: the hardware callback for the first
match, and `onUnknownException` when there is none. -/
theorem trace_handleHardware (code : DWORD) (a : LPVOID b) (hThread : HANDLE) :
    (d.handleHardware cb code a hThread).trace = d.trace ++
      if d.isHardwareBreakpointAt a ≠ .NOP then
        [(.onHardwareBreakpoint a hThread (d.isHardwareBreakpointAt a),
          (d.call cb (.onHardwareBreakpoint a hThread (d.isHardwareBreakpointAt a))).2)]
      else [(.onUnknownException a code, (d.call cb (.onUnknownException a code)).2)] := by
  simp only [handleHardware]
  split_ifs
  · exact answerHardware_trace a hThread _ _
  · rfl

variable (cb d) in
theorem deliveries_handleHardware (code : DWORD) (a : LPVOID b) (hThread : HANDLE) :
    (d.handleHardware cb code a hThread).deliveries =
      if d.isHardwareBreakpointAt a ≠ .NOP then
        d.deliveries ++ [(.onHardwareBreakpoint a hThread (d.isHardwareBreakpointAt a),
          (d.call cb (.onHardwareBreakpoint a hThread (d.isHardwareBreakpointAt a))).2)]
      else d.deliveries := by
  rw [deliveries, trace_handleHardware, List.filter_append]
  split_ifs
  · rfl
  · exact List.append_nil _

theorem handleHardware_break (hr : d.os.Reliable) (hcb : KeepsSystem cb) {code : DWORD}
    {a : LPVOID b} {hThread : HANDLE} {i : Fin 4} {tid : DWORD} (ht : tid ∈ d.os.processThreads)
    (hreg : d.isHardwareBreakpointAt a = .ofSlot i)
    (hbreak : (d.call cb (.onHardwareBreakpoint a hThread (.ofSlot i))).2 = .BREAK) :
    (d.handleHardware cb code a hThread).slots tid i = none := by
  obtain ⟨hr', hthreads⟩ := hcb (.onHardwareBreakpoint a hThread (.ofSlot i)) d hr
  let d₁ := (d.call cb (.onHardwareBreakpoint a hThread (.ofSlot i))).1
  obtain ⟨-, hall⟩ := clearHardwareBreakpoint_putsAll (d := d₁) hr' i
  have hslots := hall.slots tid
  have hmem : tid ∈ d₁.os.processThreads := by
    change tid ∈ (cb (.onHardwareBreakpoint a hThread (.ofSlot i)) d).1.os.processThreads
    rw [hthreads]
    exact ht
  rw [if_pos hmem] at hslots
  have hne : DRReg.ofSlot i ≠ .NOP := DRReg.ofSlot_ne_NOP i
  simp only [handleHardware, hreg, ne_eq, hne, not_false_eq_true, if_true, hbreak, answerHardware]
  rw [hslots, Function.update_self]

/-- A single-step event is delivered for slot `i` of its thread exactly when no
step is pending and slot number `i` is the first match for the exception address
among the threads that the list denotes once the event's handle is open. -/
theorem delivered_iff {b : Build} {cb : Callbacks b} {d : Debugger b} {e : ExceptionEvent b}
    {i : Fin 4} (hcode : e.ExceptionCode = EXCEPTION_SINGLE_STEP) (hr : d.os.Reliable)
    (hcb : KeepsSystem cb) (ht : e.dwThreadId ∈ d.os.processThreads) :
    Delivered d (d.handleException cb e) e i ↔
      d.stepping = false ∧
        FirstSlotAt d.os.context e.ExceptionAddress i (d.opened e.dwThreadId).listed := by
  let d₁ := d.opened e.dwThreadId
  have hr₁ : d₁.os.Reliable := hr
  have hfirst : d₁.isHardwareBreakpointAt e.ExceptionAddress = .ofSlot i ↔
      FirstSlotAt d.os.context e.ExceptionAddress i d₁.listed :=
    isHardwareBreakpointAt_eq_ofSlot hr₁ _ _
  rw [handleException_of_opened (hr _), ← hfirst]
  cases hs : d.stepping with
  | true =>
    have hdispatch : d₁.dispatch cb e d.os.handles.next = _ := dispatch_step hcode hs
    rw [hdispatch]
    refine iff_of_false ?_ (fun h => by cases h.1)
    rintro ⟨bpType, hdel, -⟩
    have hsame := deliveries_handleStep cb d₁ e.ExceptionAddress d.os.handles.next
    have hself : d.deliveries = d.deliveries ++ _ := hsame.symm.trans hdel
    simp at hself
  | false =>
    have hdispatch : d₁.dispatch cb e d.os.handles.next = _ := dispatch_hardware hcode hs
    rw [hdispatch]
    have hdel := deliveries_handleHardware cb d₁ e.ExceptionCode e.ExceptionAddress
      d.os.handles.next
    constructor
    · rintro ⟨bpType, hdel', -⟩
      refine ⟨rfl, ?_⟩
      have hlist := hdel.symm.trans hdel'
      split_ifs at hlist
      · have hcall := @List.append_cancel_left _ d.deliveries _ _ hlist
        simp only [List.cons.injEq, Prod.mk.injEq, Call.onHardwareBreakpoint.injEq] at hcall
        exact hcall.1.1.2.2
      · have hself : d.deliveries = d.deliveries ++ _ := hlist
        simp at hself
    · rintro ⟨-, hreg⟩
      rw [hreg, if_pos (DRReg.ofSlot_ne_NOP i)] at hdel
      exact ⟨_, hdel, fun hbreak => handleHardware_break hr₁ hcb ht hreg hbreak⟩

theorem keepsSystem_answering (ans : Call b → Debugger b → BreakpointAction) :
    KeepsSystem (answering ans) := fun _ _ hr => ⟨hr, rfl⟩

/-- An instruction breakpoint of the second of two threads, answered with `BREAK`. -/
theorem delivered_iff_second_thread :
    let d : Debugger .x64 := (setHardwareBreakpoint ⟨0, 0x401000, .DR1, .EXECUTE, .BYTE⟩
      (.new (.ofCode (fun _ => 0x90) [7, 8]))).1
    let e : ExceptionEvent .x64 := ⟨EXCEPTION_SINGLE_STEP, 0x401000, 8, 0, 0⟩
    Delivered d (d.handleException (answering fun _ _ => .BREAK) e) e 1 ↔
      d.stepping = false ∧
        FirstSlotAt d.os.context e.ExceptionAddress 1 (d.opened e.dwThreadId).listed :=
  delivered_iff rfl (fun _ => rfl) (keepsSystem_answering _) (by decide)

/-- A data breakpoint fires at the instruction after the write, and no slot holds
that address: the hit goes to `onUnknownException`. -/
theorem data_hit_not_delivered :
    let d : Debugger .x64 := (setHardwareBreakpoint ⟨0, 0x403000, .DR0, .WRITE, .BYTE⟩
      (.new (.ofCode (fun _ => 0x90) [7]))).1
    let e : ExceptionEvent .x64 := ⟨EXCEPTION_SINGLE_STEP, 0x401005, 7, 0, 0⟩
    d.stepping = false ∧ Fired d e 0 ∧
      ¬ Delivered d (d.handleException (answering fun _ _ => .BREAK) e) e 0 := by
  refine ⟨rfl, ⟨⟨0x403000, .WRITE, .BYTE⟩, by decide, fun h => by cases h⟩, ?_⟩
  rintro ⟨bpType, hdel, -⟩
  have hnone : (handleException (answering fun _ _ => .BREAK)
      (⟨EXCEPTION_SINGLE_STEP, 0x401005, 7, 0, 0⟩ : ExceptionEvent .x64)
      (setHardwareBreakpoint ⟨0, 0x403000, .DR0, .WRITE, .BYTE⟩
        (.new (.ofCode (fun _ => 0x90) [7]))).1).deliveries = [] := by decide
  rw [hnone] at hdel
  simp at hdel

end Debugger
end RoboDbg
