import RoboDbg.ListedArmed

/-!
# Software and hardware restores together

In a single-threaded debuggee a hardware hit answered with `RESTORE` clears one
slot and records what it held; the step that follows puts it back. As long as no
software hit arrives in between, both kinds of breakpoint are back in force
whenever no step is pending. A slot and a breakpoint on one address do overlap.
-/

namespace RoboDbg

open Runs

variable {b : Build}

namespace Debugger

/-- A reliable system whose only thread, for the process and for the list, is `tid`. -/
structure OnlyThread (tid : DWORD) (d : Debugger b) : Prop where
  reliable : d.os.Reliable
  process : d.os.processThreads = [tid]
  listed : ∀ thread ∈ d.threads, ∀ t, d.os.handles.lookup thread.hThread = some t → t = tid

/-- Equality of everything the hardware side depends on. -/
structure SameHardware (d d' : Debugger b) : Prop where
  slots : d'.slots = d.slots
  restoreHwBP : d'.restoreHwBP = d.restoreHwBP
  hwBPToRestore : d'.hwBPToRestore = d.hwBPToRestore
  fails : d'.os.fails = d.os.fails
  process : d'.os.processThreads = d.os.processThreads
  handles : d'.os.handles = d.os.handles
  threads : d'.threads = d.threads

/-- The slots of `tid` are those in `m`, except for the one that is waiting to be
put back. -/
structure SlotsKept (tid : DWORD) (m : Fin 4 → Option (Slot b)) (d : Debugger b) : Prop where
  only : OnlyThread tid d
  intact : d.restoreHwBP = false → d.slots tid = m
  waiting : d.restoreHwBP = true → ∃ i s, m i = some s ∧
    d.slots tid = Function.update m i none ∧ d.hwBPToRestore.reg = .ofSlot i ∧
    d.hwBPToRestore.address = s.address ∧ d.hwBPToRestore.type = s.type ∧
    d.hwBPToRestore.len = s.len

def ExecuteOnly (m : Fin 4 → Option (Slot b)) : Prop :=
  ∀ i s, m i = some s → s.type = .EXECUTE ∧ s.len = .BYTE

variable {d d' d'' : Debugger b} {tid : DWORD} {m : Fin 4 → Option (Slot b)}

theorem SameHardware.refl (d : Debugger b) : SameHardware d d := ⟨rfl, rfl, rfl, rfl, rfl, rfl, rfl⟩

theorem SameHardware.trans (h : SameHardware d d') (h' : SameHardware d' d'') :
    SameHardware d d'' :=
  ⟨h'.slots.trans h.slots, h'.restoreHwBP.trans h.restoreHwBP,
    h'.hwBPToRestore.trans h.hwBPToRestore, h'.fails.trans h.fails, h'.process.trans h.process,
    h'.handles.trans h.handles, h'.threads.trans h.threads⟩

theorem PatchFrame.sameHardware (h : PatchFrame d d') : SameHardware d d' := by
  refine ⟨?_, ?_, ?_, ?_, ?_, ?_, ?_⟩ <;> rw [h.rest] <;> rfl

theorem ControlFrame.sameHardware (h : ControlFrame d d') : SameHardware d d' := by
  have hprocess : d'.os.processThreads = d.os.processThreads := by
    rw [h.rest]
    rfl
  exact ⟨h.slots, by rw [h.rest], by rw [h.rest], h.fails, hprocess, h.handles, by rw [h.rest]⟩

theorem sameHardware_afterHit (a : LPVOID b) (bpType : BreakpointAction) (d : Debugger b) :
    SameHardware d (d.afterHit a bpType) := by
  cases bpType <;> exact ⟨rfl, rfl, rfl, rfl, rfl, rfl, rfl⟩

theorem sameHardware_afterStep (a : LPVOID b) (bpType : BreakpointAction) (d : Debugger b) :
    SameHardware d (d.afterStep a bpType) := by
  unfold afterStep
  split_ifs <;> exact ⟨rfl, rfl, rfl, rfl, rfl, rfl, rfl⟩

theorem sameHardware_traced (d : Debugger b) (trace : List (Call b × BreakpointAction)) :
    SameHardware d { d with trace := trace } :=
  ⟨rfl, rfl, rfl, rfl, rfl, rfl, rfl⟩

theorem sameHardware_stepping (d : Debugger b) (stepping : Bool) :
    SameHardware d { d with stepping := stepping } :=
  ⟨rfl, rfl, rfl, rfl, rfl, rfl, rfl⟩

theorem SameHardware.onlyThread (hs : SameHardware d d') (h : OnlyThread tid d) :
    OnlyThread tid d' := by
  refine ⟨fun c => ?_, hs.process.trans h.process, ?_⟩
  · rw [hs.fails]
    exact h.reliable c
  · rw [hs.threads, hs.handles]
    exact h.listed

theorem SlotsKept.of_same (h : SlotsKept tid m d) (hs : SameHardware d d') :
    SlotsKept tid m d' := by
  refine ⟨hs.onlyThread h.only, ?_, ?_⟩
  · rw [hs.restoreHwBP, hs.slots]
    exact h.intact
  · rw [hs.restoreHwBP, hs.slots, hs.hwBPToRestore]
    exact h.waiting

theorem SlotsKept.of_call (h : SlotsKept tid m d) {c : Call b} :
    SlotsKept tid m (d.call restoring c).1 :=
  h.of_same (sameHardware_traced d _)

theorem OnlyThread.opened (h : OnlyThread tid d) : OnlyThread tid (d.opened tid) := by
  refine ⟨h.reliable, h.process, fun thread hmem t hl => ?_⟩
  rcases HandleTable.lookup_of_lookup_insert hl with rfl | hl
  · rfl
  · exact h.listed thread hmem t hl

theorem OnlyThread.closing (h : OnlyThread tid d) (hThread : HANDLE) :
    OnlyThread tid (d.closing hThread) := by
  refine ⟨h.reliable, h.process, fun thread hmem t hl => ?_⟩
  exact h.listed thread hmem t (HandleTable.lookup_of_lookup_close hl)

theorem SlotsKept.opened (h : SlotsKept tid m d) : SlotsKept tid m (d.opened tid) :=
  ⟨h.only.opened, h.intact, h.waiting⟩

theorem SlotsKept.closing (h : SlotsKept tid m d) (hThread : HANDLE) :
    SlotsKept tid m (d.closing hThread) :=
  ⟨h.only.closing hThread, h.intact, h.waiting⟩

theorem OnlyThread.mem_process (h : OnlyThread tid d) : tid ∈ d.os.processThreads := by
  rw [h.process]
  exact List.mem_singleton_self tid

theorem OnlyThread.mem_listed (h : OnlyThread tid d) {t : DWORD} (ht : t ∈ d.listed) : t = tid := by
  obtain ⟨thread, hmem, hl⟩ := List.mem_filterMap.mp ht
  exact h.listed thread hmem t hl

theorem PutsAll.onlyThread {i : Fin 4} {s : Option (Slot b)} (hp : PutsAll d d' i s)
    (h : OnlyThread tid d) : OnlyThread tid d' := by
  refine ⟨hp.frame.reliable h.reliable, hp.frame.processThreads.trans h.process, ?_⟩
  intro thread hmem t hl
  rw [hp.threadsOpen thread hmem, Option.some.injEq] at hl
  have hid : thread.threadId ∈ d'.threads.map (·.threadId) := List.mem_map_of_mem hmem
  rw [hp.threadIds, h.process, List.mem_singleton] at hid
  exact hl.symm.trans hid

theorem PutsAll.slots_only {i : Fin 4} {s : Option (Slot b)} (hp : PutsAll d d' i s)
    (h : OnlyThread tid d) : d'.slots tid = Function.update (d.slots tid) i s := by
  rw [hp.slots, if_pos h.mem_process]

theorem Puts.onlyThread {i : Fin 4} {s : Option (Slot b)} (hp : Puts d d' tid i s)
    (h : OnlyThread tid d) : OnlyThread tid d' := by
  refine ⟨hp.frame.reliable h.reliable, hp.frame.processThreads.trans h.process, ?_⟩
  rw [hp.threads, hp.handles]
  exact h.listed

theorem Puts.slots_self {i : Fin 4} {s : Option (Slot b)} (hp : Puts d d' tid i s) :
    d'.slots tid = Function.update (d.slots tid) i s := by
  rw [hp.slots, SlotMap.put, Function.update_self]

/-! ## Installing breakpoints -/

theorem OnlyThread.ofCode (code : LPVOID b → BYTE) (tid : DWORD) :
    OnlyThread tid (Debugger.new (.ofCode code [tid])) := by
  refine ⟨fun _ => rfl, ?_, fun thread hmem => by cases hmem⟩
  simp [Debugger.new, construct, Os.processThreads, Os.ofCode]

theorem OnlyThread.setBreakpoint (h : OnlyThread tid d) (a : LPVOID b) :
    OnlyThread tid (d.setBreakpoint a) :=
  (setBreakpoint_frame a d).sameHardware.onlyThread h

theorem OnlyThread.setHardwareBreakpoint (h : OnlyThread tid d) {bp : HwBp b} {i : Fin 4}
    (hreg : bp.reg = .ofSlot i) (hlen : bp.type = .EXECUTE → bp.len = .BYTE) :
    OnlyThread tid (d.setHardwareBreakpoint bp).1 ∧
      (d.setHardwareBreakpoint bp).1.slots tid =
        Function.update (d.slots tid) i (some ⟨bp.address, bp.type, bp.len⟩) := by
  obtain ⟨-, hp⟩ := setHardwareBreakpoint_putsAll h.reliable hreg hlen
  exact ⟨hp.onlyThread h, hp.slots_only h⟩

theorem slots_ofCode (code : LPVOID b → BYTE) (tids : List DWORD) :
    (Debugger.new (.ofCode code tids)).slots = fun _ _ => none := by
  funext tid i
  have hoff : (Context.zero : Context b).enabled i = false := by
    rw [Context.enabled_eq]
    exact BitVec.getLsbD_zero
  exact if_neg (by simp [Os.context, Debugger.new, construct, Os.ofCode, hoff])

theorem ExecuteOnly.none : ExecuteOnly (fun _ => none : Fin 4 → Option (Slot b)) :=
  fun _ _ h => by cases h

theorem ExecuteOnly.update (h : ExecuteOnly m) (i : Fin 4) (a : LPVOID b) :
    ExecuteOnly (Function.update m i (some ⟨a, .EXECUTE, .BYTE⟩)) := by
  intro j s hj
  by_cases hji : j = i
  · subst hji
    rw [Function.update_self, Option.some.injEq] at hj
    subst hj
    exact ⟨rfl, rfl⟩
  · rw [Function.update_of_ne hji] at hj
    exact h j s hj

/-! ## The branches -/

variable {ans : Call b → Debugger b → BreakpointAction} {hThread : HANDLE}

theorem handleBreakpoint_sameHardware (a : LPVOID b) :
    SameHardware d (d.handleBreakpoint (answering ans) a hThread) := by
  cases hx : d.breakpoints[a]? with
  | none =>
    rw [handleBreakpoint_of_not_listed hx]
    exact .refl d
  | some x =>
    rw [handleBreakpoint_of_listed hx, call_answering]
    have h₁ := (restoreBreakpoint_frame a d).sameHardware
    have h₂ := (decrementIP_frame hThread (d.restoreBreakpoint a)).sameHardware
    let d₂ := (d.restoreBreakpoint a).decrementIP hThread
    let bpType := ans (.onBreakpoint a hThread) d₂
    let d₃ : Debugger b := { d₂ with trace := d₂.trace ++ [(.onBreakpoint a hThread, bpType)] }
    have h₃ : SameHardware d₂ d₃ := sameHardware_traced d₂ _
    have h₄ := sameHardware_afterHit a bpType d₃
    have h₅ := (answerBreakpoint_frame a hThread bpType d₃).sameHardware
    exact (((h₁.trans h₂).trans h₃).trans h₄).trans h₅

theorem SlotsKept.restorePending (h : SlotsKept tid m d) (hm : ExecuteOnly m)
    (hhw : d.restoreHwBP = true → d.needToRestoreBreakpoint = true) :
    SlotsKept tid m d.restorePending ∧ d.restorePending.restoreHwBP = false := by
  unfold Debugger.restorePending
  by_cases hneed : d.needToRestoreBreakpoint = true
  · by_cases hwait : d.restoreHwBP = true
    · obtain ⟨i, s, hmi, hslots, hreg, haddr, htype, hlen⟩ := h.waiting hwait
      have hbyte : d.hwBPToRestore.type = .EXECUTE → d.hwBPToRestore.len = .BYTE :=
        fun _ => hlen.trans (hm i s hmi).2
      obtain ⟨-, hp⟩ := setHardwareBreakpoint_putsAll h.only.reliable hreg hbyte
      have hall := hp.slots_only h.only
      rw [hslots, Function.update_idem, haddr, htype, hlen] at hall
      have hback : (d.setHardwareBreakpoint d.hwBPToRestore).1.slots tid = m := by
        rw [hall]
        exact Function.update_eq_self_iff.mpr hmi.symm
      have honly := hp.onlyThread h.only
      rw [if_pos hneed, if_pos hwait]
      exact ⟨⟨⟨honly.reliable, honly.process, honly.listed⟩, fun _ => hback,
        fun hp => by cases hp⟩, rfl⟩
    · have hs := (setBreakpoint_frame d.bpAddrToRestore d).sameHardware
      rw [if_pos hneed, if_neg hwait]
      refine ⟨(h.of_same hs).of_same ⟨rfl, rfl, rfl, rfl, rfl, rfl, rfl⟩, ?_⟩
      exact hs.restoreHwBP.trans (by simpa using hwait)
  · rw [if_neg hneed]
    refine ⟨h, ?_⟩
    by_contra hwait
    exact hneed (hhw (by simpa using hwait))

theorem SlotsKept.handleStep (h : SlotsKept tid m d) (hm : ExecuteOnly m)
    (hhw : d.restoreHwBP = true → d.needToRestoreBreakpoint = true) (a : LPVOID b) :
    SlotsKept tid m (d.handleStep (answering ans) a hThread) := by
  obtain ⟨hk, -⟩ := h.restorePending hm hhw
  simp only [Debugger.handleStep, call_answering]
  split_ifs
  · have hcall : ∀ trace, SlotsKept tid m { d.restorePending with trace := trace } :=
      fun _ => hk.of_same (sameHardware_traced _ _)
    have hanswer : ∀ trace bpType,
        SlotsKept tid m (answerStep a hThread bpType { d.restorePending with trace := trace }) :=
      fun trace bpType => ((hcall trace).of_same (sameHardware_afterStep a bpType _)).of_same
        (answerStep_frame a hThread bpType _).sameHardware
    exact hanswer _ _
  · exact hk.of_same (sameHardware_stepping _ false)

theorem FirstSlotAt.exists_mem {context : DWORD → Context b} {a : LPVOID b} {i : Fin 4}
    {tids : List DWORD} (h : FirstSlotAt context a i tids) : ∃ t ∈ tids, SlotAt context t a i := by
  induction tids with
  | nil => exact h.elim
  | cons t tids ih =>
    rcases h with ⟨ht, -⟩ | ⟨-, hrest⟩
    · exact ⟨t, List.mem_cons_self, ht⟩
    · obtain ⟨u, hu, hslot⟩ := ih hrest
      exact ⟨u, List.mem_cons_of_mem _ hu, hslot⟩

theorem OnlyThread.hit_slot (h : OnlyThread tid d) {a : LPVOID b} {i : Fin 4}
    (hreg : d.isHardwareBreakpointAt a = .ofSlot i) :
    ∃ s hRead, d.slots tid i = some s ∧
      d.getBreakpointByReg (.ofSlot i) = ⟨hRead, s.address, .ofSlot i, s.type, s.len⟩ := by
  have hfirst := (isHardwareBreakpointAt_eq_ofSlot h.reliable a i).mp hreg
  obtain ⟨t, ht, hen, -⟩ := hfirst.exists_mem
  obtain rfl : t = tid := h.mem_listed ht
  have hslot : ∃ s, d.slots t i = some s := ⟨_, if_pos hen⟩
  obtain ⟨s, hs⟩ := hslot
  have hall : ∀ u ∈ d.listed, d.slots u i = some s := by
    intro u hu
    rw [h.mem_listed hu]
    exact hs
  obtain ⟨hRead, hread⟩ := getBreakpointByReg_eq h.reliable (List.ne_nil_of_mem ht) hall
  exact ⟨s, hRead, hs, hread⟩

theorem SlotsKept.answerHardware (h : SlotsKept tid m d) (hidle : d.restoreHwBP = false)
    (hl : d.os.handles.lookup hThread = some tid) {a : LPVOID b} {i : Fin 4}
    (hreg : d.isHardwareBreakpointAt a = .ofSlot i) :
    SlotsKept tid m (d.answerHardware a hThread (.ofSlot i) .RESTORE) := by
  obtain ⟨s, hRead, hslot, hread⟩ := h.only.hit_slot hreg
  let d₁ := d.afterHardware a hThread (.ofSlot i)
  have h₁ : OnlyThread tid d₁ := ⟨h.only.reliable, h.only.process, h.only.listed⟩
  have hl₁ : d₁.os.handles.lookup hThread = some tid := hl
  obtain ⟨-, hputs⟩ := clearHardwareBreakpointOnThread_puts h₁.reliable hl₁ i
  let d₂ := (d₁.clearHardwareBreakpointOnThread hThread (.ofSlot i)).1
  have hcontrol := (enableSingleStep_frame hThread d₂).sameHardware
  have hm : d₁.slots tid = m := h.intact hidle
  have hslots : d₂.slots tid = Function.update m i none := by rw [hputs.slots_self, hm]
  have hwait : d₂.restoreHwBP = true := hputs.frame.sameRestore.restoreHwBP
  have hrec : d₂.hwBPToRestore = ⟨hRead, s.address, .ofSlot i, s.type, s.len⟩ := by
    rw [← hread]
    exact congrArg hwBPToRestore hputs.frame.rest
  have hkept : SlotsKept tid m d₂ := by
    refine ⟨hputs.onlyThread h₁, fun hno => ?_, fun _ => ?_⟩
    · rw [hwait] at hno
      cases hno
    · rw [hrec]
      exact ⟨i, s, hm ▸ hslot, hslots, rfl, rfl, rfl, rfl⟩
  rw [answerHardware_restore]
  exact (hkept.of_same hcontrol).of_same (sameHardware_stepping _ true)

theorem SlotsKept.handleHardware (h : SlotsKept tid m d) (hidle : d.restoreHwBP = false)
    (hl : d.os.handles.lookup hThread = some tid) (code : DWORD) (a : LPVOID b) :
    SlotsKept tid m (d.handleHardware restoring code a hThread) := by
  have hcall : ∀ trace, SlotsKept tid m { d with trace := trace } :=
    fun _ => h.of_same (sameHardware_traced d _)
  simp only [Debugger.handleHardware, restoring, call_answering]
  split_ifs with hreg
  · obtain ⟨i, hi⟩ := DRReg.eq_ofSlot hreg
    have hanswer : ∀ trace, SlotsKept tid m
        (Debugger.answerHardware a hThread (.ofSlot i) .RESTORE { d with trace := trace }) :=
      fun trace => (hcall trace).answerHardware hidle hl hi
    rw [hi]
    exact hanswer _
  · exact hcall _

theorem SlotsKept.handleException (h : SlotsKept tid m d) (hm : ExecuteOnly m) (hre : Rearmable d)
    {e : ExceptionEvent b} (htid : e.dwThreadId = tid) :
    SlotsKept tid m (d.handleException restoring e) := by
  have h₁ : SlotsKept tid m (d.opened e.dwThreadId) := htid ▸ h.opened
  have hl : (d.opened e.dwThreadId).os.handles.lookup d.os.handles.next = some tid :=
    htid ▸ lookup_opened _ d
  rw [handleException_of_opened (h.only.reliable _)]
  refine SlotsKept.closing ?_ _
  apply dispatch_elim
  case breakpoint => exact fun _ => h₁.of_same (handleBreakpoint_sameHardware _)
  case step => exact fun _ _ => h₁.handleStep hm (fun hhw => (hre.hardware hhw).1) _
  case hardware => exact fun _ hs => h₁.handleHardware (hre.restoreHwBP_of_idle hs) hl _ _
  case other => exact fun _ _ => h₁.of_call

/-- What the only thread may do between two events. -/
structure RunsAlone (tid : DWORD) (d : Debugger b) (os : Os b) : Prop where
  undisturbed : d.Undisturbed os
  reliable : os.Reliable
  process : os.processThreads = [tid]
  slots : ∀ t, (os.context t).slot = (d.os.context t).slot
  handles : os.handles = d.os.handles

end Debugger

open Debugger

def OfThread (tid : DWORD) : Turn b → Prop
  | .event (.EXCEPTION e) => e.dwThreadId = tid
  | .event (.CREATE_THREAD _ _ _) => False
  | _ => True

def SingleStep (cb : Callbacks b) (tid : DWORD) : Debugger b → Turn b → Debugger b → Prop :=
  Restrict (LoopStep (RunsAlone tid) cb) (fun _ => OfThread tid)

namespace Debugger

variable {tid : DWORD} {m : Fin 4 → Option (Slot b)} {d d' : Debugger b}

theorem SlotsKept.debuggee (h : SlotsKept tid m d) {os : Os b} (hos : d.RunsAlone tid os) :
    SlotsKept tid m { d with os := os } := by
  have hslots : Debugger.slots { d with os := os } = d.slots := funext hos.slots
  refine ⟨⟨hos.reliable, hos.process, ?_⟩, ?_, ?_⟩
  · change ∀ thread ∈ d.threads, ∀ t, os.handles.lookup thread.hThread = some t → t = tid
    rw [hos.handles]
    exact h.only.listed
  · rw [hslots]
    exact h.intact
  · rw [hslots]
    exact h.waiting

theorem SlotsKept.step (hm : ExecuteOnly m) {turn : Turn b}
    (h : Rearmable d ∧ SlotsKept tid m d)
    (hstep : Restrict (SingleStep restoring tid) Undivided d turn d') :
    Rearmable d' ∧ SlotsKept tid m d' := by
  obtain ⟨hre, hkept⟩ := h
  obtain ⟨⟨hstep, hthread⟩, hund⟩ := hstep
  cases hstep with
  | debuggee hos => exact ⟨hre.debuggee hos.undisturbed, hkept.debuggee hos⟩
  | event ev _ =>
    refine ⟨hre.handleEvent hund.safeEvent, ?_⟩
    cases ev with
    | EXCEPTION e => exact hkept.handleException hm hre hthread
    | CREATE_THREAD _ _ _ => exact hthread.elim
    | CREATE_PROCESS base =>
      have hbase : SlotsKept tid m { d with baseImageBase := base } :=
        hkept.of_same ⟨rfl, rfl, rfl, rfl, rfl, rfl, rfl⟩
      exact hbase.of_call
    | _ => exact hkept.of_call

end Debugger

/-- With `RESTORE` answers, whenever no step is pending every listed address is
armed and every slot holds what it held at the start, provided no software hit
found another restore pending. -/
theorem both_kinds_restored {b : Build} {tid : DWORD} {d d' : Debugger b} {turns : List (Turn b)}
    (hstart : d.AtRest) (honly : d.OnlyThread tid) (hexec : ExecuteOnly (d.slots tid))
    (hrun : Run (Restrict (SingleStep restoring tid) Undivided) d turns d')
    (hidle : d'.stepping = false) : d'.AllArmed ∧ d'.slots tid = d.slots tid := by
  have hkept : SlotsKept tid (d.slots tid) d := by
    refine ⟨honly, fun _ => rfl, fun hhw => ?_⟩
    rw [hstart.restoreHwBP] at hhw
    cases hhw
  obtain ⟨hre, hslots⟩ := hrun.invariant (fun _ _ _ h hstep => SlotsKept.step hexec h hstep)
    ⟨hstart.rearmable, hkept⟩
  exact ⟨hre.idle hidle, hslots.intact (hre.restoreHwBP_of_idle hidle)⟩

theorem both_kinds_restored_in_turn :
    let d : Debugger .x64 :=
      ((setHardwareBreakpoint ⟨0, 9, .DR2, .EXECUTE, .BYTE⟩
        (new (.ofCode (fun _ => 0x90) [7]))).1).setBreakpoint 5
    let d₁ := d.handleException restoring ⟨EXCEPTION_BREAKPOINT, 5, 7, 0, 0⟩
    let d₂ := d₁.handleException restoring ⟨EXCEPTION_SINGLE_STEP, 6, 7, 0, 0⟩
    let d₃ := d₂.handleException restoring ⟨EXCEPTION_SINGLE_STEP, 9, 7, 0, 0⟩
    let d₄ := d₃.handleException restoring ⟨EXCEPTION_SINGLE_STEP, 10, 7, 0, 0⟩
    d₄.AllArmed ∧ d₄.slots 7 = d.slots 7 := by
  intro d d₁ d₂ d₃ d₄
  let bp : HwBp .x64 := ⟨0, 9, .DR2, .EXECUTE, .BYTE⟩
  let d₀ : Debugger .x64 := new (.ofCode (fun _ => 0x90) [7])
  have hbase : d₀.AtRest := AtRest.ofCode _ _
  have hreg : bp.reg = .ofSlot 2 := rfl
  have honly₀ : OnlyThread 7 d₀ := OnlyThread.ofCode _ 7
  obtain ⟨honly, hslots⟩ := honly₀.setHardwareBreakpoint hreg (fun _ => rfl)
  have hrest : (d₀.setHardwareBreakpoint bp).1.AtRest :=
    hbase.of_same (setHardwareBreakpoint_frame bp d₀).sameRestore
  have hexec : ExecuteOnly (d.slots 7) := by
    rw [(setBreakpoint_frame 5 (d₀.setHardwareBreakpoint bp).1).sameHardware.slots, hslots,
      slots_ofCode]
    exact ExecuteOnly.none.update 2 9
  have hstep : ∀ (d : Debugger .x64) (e : ExceptionEvent .x64), d.dbgLoop = true →
      e.dwThreadId = 7 → d.Undivided (.event (.EXCEPTION e)) →
      Restrict (SingleStep restoring 7) Undivided d (.event (.EXCEPTION e))
        (d.handleException restoring e) :=
    fun _ e hloop htid hund => ⟨⟨.event (.EXCEPTION e) hloop, htid⟩, hund⟩
  have h₁ := hstep d ⟨EXCEPTION_BREAKPOINT, 5, 7, 0, 0⟩ (by decide) rfl
    (fun _ => Or.inl (by decide))
  have h₂ := hstep d₁ ⟨EXCEPTION_SINGLE_STEP, 6, 7, 0, 0⟩ (by decide) rfl
    (fun h => absurd h.2.1 (by decide))
  have h₃ := hstep d₂ ⟨EXCEPTION_SINGLE_STEP, 9, 7, 0, 0⟩ (by decide) rfl
    (fun h => absurd h.2.1 (by decide))
  have h₄ := hstep d₃ ⟨EXCEPTION_SINGLE_STEP, 10, 7, 0, 0⟩ (by decide) rfl
    (fun h => absurd h.2.1 (by decide))
  exact both_kinds_restored (hrest.setBreakpoint 5) (honly.setBreakpoint 5) hexec
    (.cons h₁ (.cons h₂ (.cons h₃ (.cons h₄ (.nil _))))) (by decide)

/-- A slot and a breakpoint both at 5: the slot faults first, then the int3 is
reported while the slot waits to be put back, and one step ends both. -/
theorem same_address_loses_breakpoint :
    let d : Debugger .x64 :=
      ((setHardwareBreakpoint ⟨0, 5, .DR0, .EXECUTE, .BYTE⟩
        (new (.ofCode (fun _ => 0x90) [7]))).1).setBreakpoint 5
    let d' := loop restoring
      [(id, .EXCEPTION ⟨EXCEPTION_SINGLE_STEP, 5, 7, 0, 0⟩),
        (id, .EXCEPTION ⟨EXCEPTION_BREAKPOINT, 5, 7, 0, 0⟩),
        (id, .EXCEPTION ⟨EXCEPTION_SINGLE_STEP, 6, 7, 0, 0⟩)] d
    d.AtRest ∧ d'.stepping = false ∧ 5 ∈ d'.breakpoints ∧ ¬ d'.Armed 5 := by
  have hbase : (new (.ofCode (fun _ => 0x90) [7]) : Debugger .x64).AtRest := AtRest.ofCode _ _
  have hrest := hbase.of_same
    (setHardwareBreakpoint_frame ⟨0, 5, .DR0, .EXECUTE, .BYTE⟩ _).sameRestore
  refine ⟨hrest.setBreakpoint 5, ?_, ?_, ?_⟩
  · decide
  · decide
  · unfold Armed
    decide

end RoboDbg
