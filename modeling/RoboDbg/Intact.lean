import RoboDbg.Machine
import RoboDbg.PatchTable

/-!
# The program stays intact

Whatever the callbacks answer and whatever the flags hold, handling an exception
of the only thread leaves memory as the program wrote it except for int3s on
first bytes of instructions whose original bytes are filed, and the slots hold
instruction breakpoints only.
-/

namespace RoboDbg

open Overlay

variable {b : Build}

def HwBp.Instruction (bp : HwBp b) : Prop :=
  (∃ i, bp.reg = .ofSlot i) ∧ bp.type = .EXECUTE ∧ bp.len = .BYTE

namespace Debugger

/-- Every listed handle is open for `tid` and is not the one of the event being handled. -/
structure HandlesOpen (tid : DWORD) (event : Option HANDLE) (d : Debugger b) : Prop where
  held : ∀ h, event = some h → d.os.handles.lookup h = some tid
  threads : ∀ thread ∈ d.threads, event ≠ some thread.hThread ∧
    d.os.handles.lookup thread.hThread = some tid

/-- `starts` holds the first bytes of the program's instructions and `ref` is the
memory as the program wrote it. -/
structure Intact (tid : DWORD) (starts : Set (LPVOID b)) (ref : LPVOID b → BYTE)
    (event : Option HANDLE) (d : Debugger b) : Prop where
  only : OnlyThread tid d
  handles : HandlesOpen tid event d
  patched : Patched ref d
  listed : ∀ a ∈ d.breakpoints, a ∈ starts
  pending : d.needToRestoreBreakpoint = true → d.bpAddrToRestore ∈ starts
  execute : ExecuteOnly (d.slots tid)
  record : d.restoreHwBP = true → d.hwBPToRestore.Instruction

variable {d d' : Debugger b} {tid : DWORD} {starts : Set (LPVOID b)} {ref : LPVOID b → BYTE}
  {event : Option HANDLE} {i : Fin 4} {s : Option (Slot b)}

theorem HandlesOpen.of_same (h : HandlesOpen tid event d) (hs : SameHardware d d') :
    HandlesOpen tid event d' := by
  refine ⟨fun x hx => ?_, fun thread hmem => ?_⟩
  · rw [hs.handles]
    exact h.held x hx
  · rw [hs.threads] at hmem
    rw [hs.handles]
    exact h.threads thread hmem

theorem HandlesOpen.of_putsAll (h : HandlesOpen tid event d) (hp : PutsAll d d' i s)
    (hprocess : d.os.processThreads = [tid]) : HandlesOpen tid event d' := by
  refine ⟨fun x hx => hp.frame.handles x tid (h.held x hx), fun thread hmem => ⟨?_, ?_⟩⟩
  · intro hevent
    have hfresh := hp.fresh thread hmem
    rw [h.held _ hevent] at hfresh
    cases hfresh
  · have hid : thread.threadId ∈ d'.threads.map (·.threadId) := List.mem_map_of_mem hmem
    rw [hp.threadIds, hprocess, List.mem_singleton] at hid
    rw [hp.threadsOpen thread hmem, hid]

theorem ExecuteOnly.put {m : Fin 4 → Option (Slot b)} (h : ExecuteOnly m) (i : Fin 4)
    (hs : ∀ x, s = some x → x.type = .EXECUTE ∧ x.len = .BYTE) :
    ExecuteOnly (Function.update m i s) := by
  intro j x hj
  by_cases hji : j = i
  · rw [hji, Function.update_self] at hj
    exact hs x hj
  · rw [Function.update_of_ne hji] at hj
    exact h j x hj

/-! ## Frames -/

theorem Patched.of_same (h : Patched ref d) (hmem : d'.os.memory = d.os.memory)
    (hbps : d'.breakpoints = d.breakpoints) : Patched ref d' := by
  have htable : d'.table = d.table := by
    funext a
    rw [table, table, hbps]
  refine ⟨?_, ?_⟩
  · rw [hmem]
    exact h.accessible
  · rw [hmem, htable]
    exact h.covers

theorem Intact.of_same (h : Intact tid starts ref event d) (hs : SameHardware d d')
    (hmem : d'.os.memory = d.os.memory) (hbps : d'.breakpoints = d.breakpoints)
    (hpend : d'.needToRestoreBreakpoint = true → d'.bpAddrToRestore ∈ starts) :
    Intact tid starts ref event d' := by
  refine ⟨hs.onlyThread h.only, h.handles.of_same hs, h.patched.of_same hmem hbps, ?_, hpend, ?_,
    ?_⟩
  · rw [hbps]
    exact h.listed
  · rw [hs.slots]
    exact h.execute
  · rw [hs.restoreHwBP, hs.hwBPToRestore]
    exact h.record

theorem Intact.of_control (h : Intact tid starts ref event d) (hf : ControlFrame d d') :
    Intact tid starts ref event d' := by
  have hs := hf.sameRestore
  refine h.of_same hf.sameHardware hs.memory hs.breakpoints ?_
  rw [hs.needToRestoreBreakpoint, hs.bpAddrToRestore]
  exact h.pending

theorem Intact.of_hardware (h : Intact tid starts ref event d) (hf : HwFrame d d')
    (honly : OnlyThread tid d') (hhandles : HandlesOpen tid event d')
    (hslots : d'.slots tid = Function.update (d.slots tid) i s)
    (hs : ∀ x, s = some x → x.type = .EXECUTE ∧ x.len = .BYTE) :
    Intact tid starts ref event d' := by
  have hsame := hf.sameRestore
  refine ⟨honly, hhandles, h.patched.of_same hsame.memory hsame.breakpoints, ?_, ?_, ?_, ?_⟩
  · rw [hsame.breakpoints]
    exact h.listed
  · rw [hsame.needToRestoreBreakpoint, hsame.bpAddrToRestore]
    exact h.pending
  · rw [hslots]
    exact h.execute.put i hs
  · rw [hf.rest]
    exact h.record

theorem Intact.of_putsAll (h : Intact tid starts ref event d) (hp : PutsAll d d' i s)
    (hs : ∀ x, s = some x → x.type = .EXECUTE ∧ x.len = .BYTE) :
    Intact tid starts ref event d' := by
  exact h.of_hardware hp.frame (hp.onlyThread h.only) (h.handles.of_putsAll hp h.only.process)
    (hp.slots_only h.only) hs

theorem Intact.of_puts (h : Intact tid starts ref event d) (hp : Puts d d' tid i s)
    (hs : ∀ x, s = some x → x.type = .EXECUTE ∧ x.len = .BYTE) :
    Intact tid starts ref event d' := by
  have hhandles : HandlesOpen tid event d' := by
    refine ⟨?_, ?_⟩
    · rw [hp.handles]
      exact h.handles.held
    · rw [hp.threads, hp.handles]
      exact h.handles.threads
  exact h.of_hardware hp.frame (hp.onlyThread h.only) hhandles hp.slots_self hs

theorem Intact.of_patch (h : Intact tid starts ref event d) (hf : PatchFrame d d')
    (hpatched : Patched ref d') (hlisted : ∀ a ∈ d'.breakpoints, a ∈ starts) :
    Intact tid starts ref event d' := by
  have hs := hf.sameHardware
  refine ⟨hs.onlyThread h.only, h.handles.of_same hs, hpatched, hlisted, ?_, ?_, ?_⟩
  · rw [hf.rest]
    exact h.pending
  · rw [hs.slots]
    exact h.execute
  · rw [hs.restoreHwBP, hs.hwBPToRestore]
    exact h.record

theorem Intact.setBreakpoint (h : Intact tid starts ref event d) {a : LPVOID b} (ha : a ∈ starts) :
    Intact tid starts ref event (d.setBreakpoint a) := by
  apply h.of_patch (setBreakpoint_frame a d) (h.patched.setBreakpoint a)
  intro x hx
  rcases mem_setBreakpoint h.patched.accessible hx with rfl | hx
  · exact ha
  · exact h.listed x hx

theorem Intact.setHardwareBreakpoint (h : Intact tid starts ref event d) {bp : HwBp b}
    (hbp : bp.Instruction) : Intact tid starts ref event (d.setHardwareBreakpoint bp).1 := by
  obtain ⟨⟨i, hreg⟩, htype, hlen⟩ := hbp
  obtain ⟨-, hp⟩ := setHardwareBreakpoint_putsAll h.only.reliable hreg (fun _ => hlen)
  refine h.of_putsAll hp (fun x hx => ?_)
  obtain rfl := Option.some.inj hx
  exact ⟨htype, hlen⟩

theorem Intact.clearHardwareBreakpoint (h : Intact tid starts ref event d) (i : Fin 4) :
    Intact tid starts ref event (d.clearHardwareBreakpoint (.ofSlot i)).1 := by
  obtain ⟨-, hp⟩ := clearHardwareBreakpoint_putsAll h.only.reliable i
  exact h.of_putsAll hp (fun x hx => by cases hx)

theorem Intact.restoreBreakpoint (h : Intact tid starts ref event d) (a : LPVOID b) :
    Intact tid starts ref event (d.restoreBreakpoint a) := by
  apply h.of_patch (restoreBreakpoint_frame a d) (h.patched.restoreBreakpoint a)
  rw [restoreBreakpoint_breakpoints]
  exact h.listed

theorem Intact.erase (h : Intact tid starts ref event d) {a : LPVOID b} (ha : ¬ d.Armed a) :
    Intact tid starts ref event { d with breakpoints := d.breakpoints.erase a } := by
  refine ⟨⟨h.only.reliable, h.only.process, h.only.listed⟩, ⟨h.handles.held, h.handles.threads⟩,
    ⟨h.patched.accessible, h.patched.covers.prune (fun x => ?_)⟩, fun x hx => ?_, h.pending,
    h.execute, h.record⟩
  · by_cases hxa : x = a
    · rw [hxa]
      exact Or.inr ⟨Std.TreeMap.getElem?_erase_self, ha⟩
    · refine Or.inl ?_
      have hax : ¬ a = x := fun heq => hxa heq.symm
      simp [table, Std.TreeMap.getElem?_erase, hax]
  · exact h.listed x (Std.TreeMap.mem_erase.mp hx).2

theorem Intact.restoreBreakpoint_not_armed (h : Intact tid starts ref event d) {a : LPVOID b}
    (hcode : ref a ≠ int3) : ¬ (d.restoreBreakpoint a).Armed a := by
  rw [Armed, restoreBreakpoint_bytes h.patched.accessible, h.patched.covers.undo_eq_ref]
  exact hcode

/-- An int3 on the first byte of an instruction is a listed breakpoint. -/
theorem Intact.mem_of_armed (h : Intact tid starts ref event d) {a : LPVOID b}
    (hcode : ref a ≠ int3) (ha : d.Armed a) : a ∈ d.breakpoints := by
  have hne : d.os.memory.bytes a ≠ ref a := by
    rw [show d.os.memory.bytes a = int3 from ha]
    exact Ne.symm hcode
  have hsome : d.breakpoints[a]? = some (ref a) := (h.patched.covers.of_ne hne).2
  exact Std.TreeMap.isSome_getElem?_iff_mem.mp (by rw [hsome]; rfl)

/-! ## Flags -/

theorem Intact.notNeeded (h : Intact tid starts ref event d) (waiting : Bool)
    (hw : waiting = true → d.restoreHwBP = true) :
    Intact tid starts ref event
      { d with restoreHwBP := waiting, needToRestoreBreakpoint := false } :=
  ⟨⟨h.only.reliable, h.only.process, h.only.listed⟩, ⟨h.handles.held, h.handles.threads⟩,
    ⟨h.patched.accessible, h.patched.covers⟩, h.listed, (fun hneed => by cases hneed), h.execute,
    fun hwait => h.record (hw hwait)⟩

theorem Intact.afterHardware (h : Intact tid starts ref event d) {a : LPVOID b} (ha : a ∈ starts)
    {reg : DRReg} (hbp : (d.getBreakpointByReg reg).Instruction) (hThread : HANDLE) :
    Intact tid starts ref event (d.afterHardware a hThread reg) :=
  ⟨⟨h.only.reliable, h.only.process, h.only.listed⟩, ⟨h.handles.held, h.handles.threads⟩,
    ⟨h.patched.accessible, h.patched.covers⟩, h.listed, fun _ => ha, h.execute, fun _ => hbp⟩

theorem Intact.stepping (h : Intact tid starts ref event d) (stepping : Bool) :
    Intact tid starts ref event { d with stepping := stepping } :=
  h.of_same (sameHardware_stepping d stepping) rfl rfl h.pending

theorem Intact.afterHit (h : Intact tid starts ref event d) {a : LPVOID b} (ha : a ∈ starts)
    (hno : ¬ d.Armed a) (bpType : BreakpointAction) :
    Intact tid starts ref event (d.afterHit a bpType) := by
  have hs := sameHardware_afterHit a bpType d
  cases bpType with
  | BREAK => exact (h.erase hno).stepping false
  | RESTORE => exact h.of_same hs rfl rfl (fun _ => ha)
  | SINGLE_STEP => exact h.of_same hs rfl rfl h.pending

theorem Intact.afterStep (h : Intact tid starts ref event d) {a : LPVOID b} (ha : a ∈ starts)
    (bpType : BreakpointAction) : Intact tid starts ref event (d.afterStep a bpType) := by
  have hs := sameHardware_afterStep a bpType d
  cases bpType with
  | BREAK => exact h
  | RESTORE => exact h.of_same hs rfl rfl (fun _ => ha)
  | SINGLE_STEP => exact h.of_same hs rfl rfl (fun _ => ha)

/-! ## Events -/

variable {ans : Call b → Debugger b → BreakpointAction} {hThread : HANDLE}

theorem Intact.restorePending (h : Intact tid starts ref event d) :
    Intact tid starts ref event d.restorePending := by
  unfold Debugger.restorePending
  split_ifs with hneed hwait
  · exact (h.setHardwareBreakpoint (h.record hwait)).notNeeded false (fun hw => by cases hw)
  · exact (h.setBreakpoint (h.pending hneed)).notNeeded _ id
  · exact h

theorem Intact.traced (h : Intact tid starts ref event d)
    (trace : List (Call b × BreakpointAction)) :
    Intact tid starts ref event { d with trace := trace } :=
  h.of_same (sameHardware_traced d trace) rfl rfl h.pending

theorem Intact.handleStep (h : Intact tid starts ref event d) {a : LPVOID b} (ha : a ∈ starts) :
    Intact tid starts ref event (d.handleStep (answering ans) a hThread) := by
  have hp := h.restorePending
  simp only [Debugger.handleStep, call_answering]
  split_ifs
  · have hanswer : ∀ trace bpType, Intact tid starts ref event
        (answerStep a hThread bpType { d.restorePending with trace := trace }) :=
      fun trace bpType => ((hp.traced trace).afterStep ha bpType).of_control
        (answerStep_frame a hThread bpType _)
    exact hanswer _ _
  · exact hp.stepping false

theorem Intact.answerHardware (h : Intact tid starts ref (some hThread) d) {a : LPVOID b}
    (ha : a ∈ starts) (hreg : d.isHardwareBreakpointAt a = .ofSlot i) (bpType : BreakpointAction) :
    Intact tid starts ref (some hThread) (d.answerHardware a hThread (.ofSlot i) bpType) := by
  cases bpType with
  | BREAK => exact h.clearHardwareBreakpoint i
  | SINGLE_STEP =>
    have hstep := h.of_control (enableSingleStep_frame hThread d)
    exact (hstep.stepping true).clearHardwareBreakpoint i
  | RESTORE =>
    obtain ⟨x, hRead, hslot, hread⟩ := h.only.hit_slot hreg
    have hbp : (d.getBreakpointByReg (.ofSlot i)).Instruction := by
      rw [hread]
      exact ⟨⟨i, rfl⟩, (h.execute i x hslot).1, (h.execute i x hslot).2⟩
    have hrec := h.afterHardware ha hbp hThread
    have hl := hrec.handles.held hThread rfl
    obtain ⟨-, hputs⟩ := clearHardwareBreakpointOnThread_puts hrec.only.reliable hl i
    have hclear := hrec.of_puts hputs (fun x hx => by cases hx)
    have hstep := hclear.of_control (enableSingleStep_frame hThread _)
    rw [answerHardware_restore]
    exact hstep.stepping true

theorem Intact.handleHardware (h : Intact tid starts ref (some hThread) d) {a : LPVOID b}
    (ha : a ∈ starts) (code : DWORD) :
    Intact tid starts ref (some hThread)
      (d.handleHardware (answering ans) code a hThread) := by
  simp only [Debugger.handleHardware, call_answering]
  split_ifs with hreg
  · obtain ⟨i, hi⟩ := DRReg.eq_ofSlot hreg
    have hanswer : ∀ trace bpType, Intact tid starts ref (some hThread)
        (Debugger.answerHardware a hThread (.ofSlot i) bpType { d with trace := trace }) :=
      fun trace bpType => (h.traced trace).answerHardware ha hi bpType
    rw [hi]
    exact hanswer _ _
  · exact h.traced _

theorem Intact.handleBreakpoint (h : Intact tid starts ref event d) {a : LPVOID b}
    (ha : a ∈ starts) (hcode : ref a ≠ int3) :
    Intact tid starts ref event (d.handleBreakpoint (answering ans) a hThread) := by
  cases hx : d.breakpoints[a]? with
  | none =>
    rw [handleBreakpoint_of_not_listed hx]
    exact h
  | some x =>
    rw [handleBreakpoint_of_listed hx, call_answering]
    have hf := decrementIP_frame hThread (d.restoreBreakpoint a)
    have h₂ := (h.restoreBreakpoint a).of_control hf
    have hno : ¬ ((d.restoreBreakpoint a).decrementIP hThread).Armed a := by
      rw [Armed, hf.memory]
      exact h.restoreBreakpoint_not_armed hcode
    have hanswer : ∀ trace bpType, Intact tid starts ref event (answerBreakpoint a hThread bpType
        { (d.restoreBreakpoint a).decrementIP hThread with trace := trace }) :=
      fun trace bpType => ((h₂.traced trace).afterHit ha hno bpType).of_control
        (answerBreakpoint_frame a hThread bpType _)
    exact hanswer _ _

theorem Intact.opened (h : Intact tid starts ref none d) :
    Intact tid starts ref (some d.os.handles.next) (d.opened tid) := by
  have hopen : HandlesOpen tid (some d.os.handles.next) (d.opened tid) := by
    refine ⟨fun x hx => ?_, fun thread hmem => ?_⟩
    · obtain rfl := Option.some.inj hx
      exact lookup_opened tid d
    · obtain ⟨-, hl⟩ := h.handles.threads thread hmem
      refine ⟨fun hnext => ?_, HandleTable.extends_insert _ _ _ _ hl⟩
      rw [← Option.some.inj hnext, HandleTable.lookup_next] at hl
      cases hl
  exact ⟨h.only.opened, hopen, ⟨h.patched.accessible, h.patched.covers⟩, h.listed, h.pending,
    h.execute, h.record⟩

theorem Intact.closing (h : Intact tid starts ref (some hThread) d) :
    Intact tid starts ref none (d.closing hThread) := by
  have hopen : HandlesOpen tid none (d.closing hThread) := by
    refine ⟨(fun x hx => by cases hx), fun thread hmem => ⟨(fun hx => by cases hx), ?_⟩⟩
    obtain ⟨hne, hl⟩ := h.handles.threads thread hmem
    have hne' : thread.hThread ≠ hThread := fun heq => hne (congrArg some heq.symm)
    exact (HandleTable.lookup_close hne').trans hl
  exact ⟨h.only.closing hThread, hopen, ⟨h.patched.accessible, h.patched.covers⟩, h.listed,
    h.pending, h.execute, h.record⟩

/-- Every exception of the thread at the first byte of an instruction leaves the
program intact. -/
theorem Intact.handleException (h : Intact tid starts ref none d) {e : ExceptionEvent b}
    (htid : e.dwThreadId = tid) (ha : e.ExceptionAddress ∈ starts)
    (hcode : ref e.ExceptionAddress ≠ int3) :
    Intact tid starts ref none (d.handleException (answering ans) e) := by
  have h₁ : Intact tid starts ref (some d.os.handles.next) (d.opened e.dwThreadId) :=
    htid ▸ h.opened
  rw [handleException_of_opened (h.only.reliable _)]
  refine Intact.closing ?_
  apply dispatch_elim
  case breakpoint => exact fun _ => h₁.handleBreakpoint ha hcode
  case step => exact fun _ _ => h₁.handleStep ha
  case hardware => exact fun _ _ => h₁.handleHardware ha _
  case other => exact fun _ _ => h₁.traced _

end Debugger
end RoboDbg
