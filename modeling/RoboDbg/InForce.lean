import RoboDbg.Delivery
import RoboDbg.Intact

/-!
# Breakpoints in force

`Arms` says which addresses hold an int3 of the debugger and which slots are
enabled. Between two hits the debugger is calm and its arms are in force. A hit
answered with anything but `BREAK` makes it await the step of the thread, after
which the arms are those that the answer stands for.
-/

namespace RoboDbg

variable {b : Build}

structure Arms (b : Build) where
  sw : Set (LPVOID b)
  hw : Fin 4 → Option (LPVOID b)

namespace Arms

def arm (A : Arms b) (a : LPVOID b) : Arms b := { A with sw := insert a A.sw }

def disarm (A : Arms b) (a : LPVOID b) : Arms b := { A with sw := A.sw \ {a} }

def put (A : Arms b) (i : Fin 4) (x : Option (LPVOID b)) : Arms b :=
  { A with hw := Function.update A.hw i x }

def slots (A : Arms b) (i : Fin 4) : Option (Slot b) :=
  (A.hw i).map (fun a => ⟨a, .EXECUTE, .BYTE⟩)

structure Distinct (A : Arms b) : Prop where
  kinds : ∀ i a, A.hw i = some a → a ∉ A.sw
  slots : ∀ i j a, A.hw i = some a → A.hw j = some a → i = j

variable {A : Arms b} {a : LPVOID b} {i : Fin 4}

theorem slots_put (A : Arms b) (i : Fin 4) (x : Option (LPVOID b)) :
    (A.put i x).slots = Function.update A.slots i (x.map (fun a => ⟨a, .EXECUTE, .BYTE⟩)) := by
  funext j
  by_cases hj : j = i
  · rw [hj]
    simp only [slots, put, Function.update_self]
  · simp only [slots, put, Function.update_of_ne hj]

theorem slots_eq_some {s : Slot b} (hs : A.slots i = some s) :
    A.hw i = some s.address ∧ s.type = .EXECUTE := by
  obtain ⟨x, hx, rfl⟩ := Option.map_eq_some_iff.mp hs
  exact ⟨hx, rfl⟩

theorem arm_disarm (ha : a ∈ A.sw) : (A.disarm a).arm a = A := by
  have hsw : insert a (A.sw \ {a}) = A.sw := by
    rw [Set.insert_sdiff_singleton, Set.insert_eq_of_mem ha]
  rw [arm, disarm, hsw]

theorem put_put (ha : A.hw i = some a) : (A.put i none).put i (some a) = A := by
  have hhw : Function.update (Function.update A.hw i none) i (some a) = A.hw := by
    rw [Function.update_idem, ← ha, Function.update_eq_self]
  rw [put, put, hhw]

theorem Distinct.disarm (h : A.Distinct) (a : LPVOID b) : (A.disarm a).Distinct :=
  ⟨fun i x hx hmem => h.kinds i x hx hmem.1, h.slots⟩

theorem put_none {j : Fin 4} {x : LPVOID b} (hx : (A.put i none).hw j = some x) :
    A.hw j = some x := by
  have hx' : Function.update A.hw i none j = some x := hx
  by_cases hji : j = i
  · rw [hji, Function.update_self] at hx'
    cases hx'
  · rwa [Function.update_of_ne hji] at hx'

theorem Distinct.put_none (h : A.Distinct) (i : Fin 4) : (A.put i none).Distinct :=
  ⟨fun j x hx => h.kinds j x (Arms.put_none hx),
    fun j k x hj hk => h.slots j k x (Arms.put_none hj) (Arms.put_none hk)⟩

end Arms

namespace Debugger

structure InForce (tid : DWORD) (starts : Set (LPVOID b)) (A : Arms b) (d : Debugger b) : Prop where
  armed : ∀ a, a ∈ A.sw ↔ a ∈ starts ∧ d.Armed a
  slots : d.slots tid = A.slots
  threads : (∃ i, A.hw i ≠ none) → d.threads ≠ []

/-- What the next completed step puts back, so that `A` is in force. -/
inductive Restores (tid : DWORD) (starts : Set (LPVOID b)) (A : Arms b) (d : Debugger b) : Prop
  | nothing (hneed : d.needToRestoreBreakpoint = false) (hwait : d.restoreHwBP = false)
      (h : InForce tid starts A d)
  | software {A₀ : Arms b} (hneed : d.needToRestoreBreakpoint = true)
      (hwait : d.restoreHwBP = false) (h : InForce tid starts A₀ d)
      (hA : A = A₀.arm d.bpAddrToRestore)
  | hardware {A₀ : Arms b} (i : Fin 4) (hneed : d.needToRestoreBreakpoint = true)
      (hwait : d.restoreHwBP = true) (hreg : d.hwBPToRestore.reg = .ofSlot i)
      (h : InForce tid starts A₀ d) (hA : A = A₀.put i (some d.hwBPToRestore.address))

/-- No answer is ever taken for a completed step. -/
def StepsSilent (ans : Call b → Debugger b → BreakpointAction) (d : Debugger b) : Prop :=
  d.lastBpType ≠ BreakpointAction.SINGLE_STEP.toInt ∨ ∀ c d, ans c d ≠ .SINGLE_STEP

/-- No step is pending, and `A` is in force. -/
structure Calm (ans : Call b → Debugger b → BreakpointAction) (tid : DWORD)
    (starts : Set (LPVOID b)) (A : Arms b) (d : Debugger b) : Prop where
  stepping : d.stepping = false
  notNeeded : d.needToRestoreBreakpoint = false
  notWaiting : d.restoreHwBP = false
  silent : StepsSilent ans d
  trapFlag : (d.os.context tid).trapFlag = false
  inForce : InForce tid starts A d

/-- The thread is about to step, after which `A` is in force. -/
structure Awaiting (tid : DWORD) (starts : Set (LPVOID b)) (A : Arms b) (d : Debugger b) :
    Prop where
  stepping : d.stepping = true
  silent : d.lastBpType ≠ BreakpointAction.SINGLE_STEP.toInt
  trapFlag : (d.os.context tid).trapFlag = true
  restores : Restores tid starts A d

variable {ans : Call b → Debugger b → BreakpointAction} {tid : DWORD} {starts : Set (LPVOID b)}
  {ref : LPVOID b → BYTE} {event : Option HANDLE} {A : Arms b} {d d' : Debugger b}

theorem InForce.of_same (h : InForce tid starts A d) (harmed : ∀ a ∈ starts, d'.Armed a ↔ d.Armed a)
    (hslots : d'.slots tid = d.slots tid) (hthreads : d'.threads = d.threads) :
    InForce tid starts A d' := by
  refine ⟨fun a => ?_, hslots.trans h.slots, ?_⟩
  · rw [h.armed]
    exact and_congr_right (fun ha => (harmed a ha).symm)
  · rw [hthreads]
    exact h.threads

theorem InForce.disarm (h : InForce tid starts A d) {a : LPVOID b}
    (harmed : ∀ x ∈ starts, d'.Armed x ↔ x ≠ a ∧ d.Armed x) (hslots : d'.slots tid = d.slots tid)
    (hthreads : d'.threads = d.threads) : InForce tid starts (A.disarm a) d' := by
  refine ⟨fun x => ?_, hslots.trans h.slots, ?_⟩
  · rw [Arms.disarm, Set.mem_sdiff, Set.mem_singleton_iff, h.armed]
    constructor
    · rintro ⟨⟨hx, hd⟩, hne⟩
      exact ⟨hx, (harmed x hx).mpr ⟨hne, hd⟩⟩
    · rintro ⟨hx, hd⟩
      obtain ⟨hne, hd⟩ := (harmed x hx).mp hd
      exact ⟨⟨hx, hd⟩, hne⟩
  · rw [hthreads]
    exact h.threads

theorem InForce.arm (h : InForce tid starts A d) {a : LPVOID b} (ha : a ∈ starts)
    (harmed : ∀ x, d'.Armed x ↔ x = a ∨ d.Armed x) (hslots : d'.slots tid = d.slots tid)
    (hthreads : d'.threads = d.threads) : InForce tid starts (A.arm a) d' := by
  refine ⟨fun x => ?_, hslots.trans h.slots, ?_⟩
  · rw [Arms.arm, Set.mem_insert_iff, h.armed, harmed]
    constructor
    · rintro (rfl | ⟨hx, hd⟩)
      · exact ⟨ha, Or.inl rfl⟩
      · exact ⟨hx, Or.inr hd⟩
    · rintro ⟨hx, hxa | hd⟩
      · exact Or.inl hxa
      · exact Or.inr ⟨hx, hd⟩
  · rw [hthreads]
    exact h.threads

theorem InForce.put (h : InForce tid starts A d) {i : Fin 4} (x : Option (LPVOID b))
    (hmem : d'.os.memory = d.os.memory)
    (hslots : d'.slots tid =
      Function.update (d.slots tid) i (x.map (fun a => ⟨a, .EXECUTE, .BYTE⟩)))
    (hthreads : d'.threads ≠ []) : InForce tid starts (A.put i x) d' := by
  refine ⟨fun a => ?_, ?_, fun _ => hthreads⟩
  · rw [Armed, hmem]
    exact h.armed a
  · rw [hslots, h.slots, Arms.slots_put]

theorem PutsAll.threads_ne_nil {i : Fin 4} {s : Option (Slot b)} (hp : PutsAll d d' i s)
    (hprocess : d.os.processThreads = [tid]) : d'.threads ≠ [] := by
  intro hnil
  have hids := hp.threadIds
  rw [hnil, hprocess] at hids
  cases hids

theorem InForce.of_control (h : InForce tid starts A d) (hf : ControlFrame d d') :
    InForce tid starts A d' :=
  h.of_same (fun a _ => by rw [Armed, Armed, hf.memory]) (congrFun hf.slots tid)
    hf.sameHardware.threads

theorem InForce.setHardwareBreakpoint (h : InForce tid starts A d) (ho : OnlyThread tid d)
    {bp : HwBp b} {i : Fin 4} (hreg : bp.reg = .ofSlot i) (htype : bp.type = .EXECUTE)
    (hlen : bp.len = .BYTE) :
    InForce tid starts (A.put i (some bp.address)) (d.setHardwareBreakpoint bp).1 := by
  obtain ⟨-, hp⟩ := setHardwareBreakpoint_putsAll ho.reliable hreg (fun _ => hlen)
  have hslots := hp.slots_only ho
  rw [htype, hlen] at hslots
  exact h.put (some bp.address) hp.frame.memory hslots (hp.threads_ne_nil ho.process)

theorem InForce.clearHardwareBreakpoint (h : InForce tid starts A d) (ho : OnlyThread tid d)
    (i : Fin 4) : InForce tid starts (A.put i none) (d.clearHardwareBreakpoint (.ofSlot i)).1 := by
  obtain ⟨-, hp⟩ := clearHardwareBreakpoint_putsAll ho.reliable i
  exact h.put none hp.frame.memory (hp.slots_only ho) (hp.threads_ne_nil ho.process)

theorem HwFrame.trapFlag (hf : HwFrame d d') (tid : DWORD) :
    (d'.os.context tid).trapFlag = (d.os.context tid).trapFlag := by
  rw [Context.trapFlag, Context.trapFlag, hf.eflags]

/-! ## A completed step -/

theorem Restores.restorePending (h : Restores tid starts A d) (hi : Intact tid starts ref event d) :
    InForce tid starts A d.restorePending ∧ d.restorePending.needToRestoreBreakpoint = false ∧
      d.restorePending.restoreHwBP = false ∧ d.restorePending.lastBpType = d.lastBpType ∧
      (d.restorePending.os.context tid).trapFlag = (d.os.context tid).trapFlag := by
  unfold Debugger.restorePending
  cases h with
  | nothing hneed hwait h =>
    have hno : ¬ d.needToRestoreBreakpoint = true := by
      rw [hneed]
      exact Bool.false_ne_true
    rw [if_neg hno]
    exact ⟨h, hneed, hwait, rfl, rfl⟩
  | software hneed hwait h hA =>
    have hno : ¬ d.restoreHwBP = true := by
      rw [hwait]
      exact Bool.false_ne_true
    have hf := setBreakpoint_frame d.bpAddrToRestore d
    have hs := hf.sameHardware
    have harm : InForce tid starts A (d.setBreakpoint d.bpAddrToRestore) := by
      rw [hA]
      exact h.arm (hi.pending hneed) (setBreakpoint_armed hi.patched.accessible _)
        (congrFun hs.slots tid) hs.threads
    have hlast : (d.setBreakpoint d.bpAddrToRestore).lastBpType = d.lastBpType := by rw [hf.rest]
    rw [if_pos hneed, if_neg hno]
    refine ⟨harm.of_same (fun _ _ => Iff.rfl) rfl rfl, rfl, hs.restoreHwBP.trans hwait, hlast, ?_⟩
    simp only [Os.context, hf.thread]
  | hardware i hneed hwait hreg h hA =>
    obtain ⟨-, htype, hlen⟩ := hi.record hwait
    have hf := setHardwareBreakpoint_frame d.hwBPToRestore d
    have hput : InForce tid starts A (d.setHardwareBreakpoint d.hwBPToRestore).1 := by
      rw [hA]
      exact h.setHardwareBreakpoint hi.only hreg htype hlen
    rw [if_pos hneed, if_pos hwait]
    exact ⟨hput.of_same (fun _ _ => Iff.rfl) rfl rfl, rfl, rfl, hf.sameRestore.lastBpType,
      hf.trapFlag tid⟩

theorem Restores.of_same (h : Restores tid starts A d)
    (harmed : ∀ a ∈ starts, d'.Armed a ↔ d.Armed a) (hslots : d'.slots tid = d.slots tid)
    (hthreads : d'.threads = d.threads)
    (hneed : d'.needToRestoreBreakpoint = d.needToRestoreBreakpoint)
    (hwait : d'.restoreHwBP = d.restoreHwBP) (haddr : d'.bpAddrToRestore = d.bpAddrToRestore)
    (hrec : d'.hwBPToRestore = d.hwBPToRestore) : Restores tid starts A d' := by
  cases h with
  | nothing hn hw h =>
    exact .nothing (hneed.trans hn) (hwait.trans hw) (h.of_same harmed hslots hthreads)
  | software hn hw h hA =>
    refine .software (hneed.trans hn) (hwait.trans hw) (h.of_same harmed hslots hthreads) ?_
    rw [hA, haddr]
  | hardware i hn hw hreg h hA =>
    refine .hardware i (hneed.trans hn) (hwait.trans hw) ?_ (h.of_same harmed hslots hthreads) ?_
    · rw [hrec]
      exact hreg
    · rw [hA, hrec]

theorem Calm.of_same (h : Calm ans tid starts A d) (hs : SameRestore d d')
    (hslots : d'.slots tid = d.slots tid) (hthreads : d'.threads = d.threads)
    (htrap : (d'.os.context tid).trapFlag = (d.os.context tid).trapFlag) :
    Calm ans tid starts A d' := by
  refine ⟨hs.stepping.trans h.stepping, hs.needToRestoreBreakpoint.trans h.notNeeded,
    hs.restoreHwBP.trans h.notWaiting, ?_, htrap.trans h.trapFlag,
    h.inForce.of_same (fun a _ => ?_) hslots hthreads⟩
  · rw [StepsSilent, hs.lastBpType]
    exact h.silent
  · rw [Armed, Armed, hs.memory]

/-- The step of the thread makes the debugger calm, with one report less than a hit. -/
theorem Restores.handleException (h : Restores tid starts A d) (hi : Intact tid starts ref none d)
    (hstep : d.stepping = true) (hsilent : d.lastBpType ≠ BreakpointAction.SINGLE_STEP.toInt)
    (htrap : (d.os.context tid).trapFlag = false) {e : ExceptionEvent b}
    (hcode : e.ExceptionCode = EXCEPTION_SINGLE_STEP) (htid : e.dwThreadId = tid) :
    Calm ans tid starts A (d.handleException (answering ans) e) ∧
      (d.handleException (answering ans) e).trace = d.trace := by
  let d₁ := d.opened e.dwThreadId
  have hi₁ : Intact tid starts ref (some d.os.handles.next) d₁ := htid ▸ hi.opened
  have h₁ : Restores tid starts A d₁ := h.of_same (fun _ _ => Iff.rfl) rfl rfl rfl rfl rfl rfl
  obtain ⟨hforce, hneed, hwait, hlast, htrap'⟩ := h₁.restorePending hi₁
  have hnot : d₁.restorePending.lastBpType ≠ BreakpointAction.SINGLE_STEP.toInt := by
    rw [hlast]
    exact hsilent
  have hhandle : d₁.handleStep (answering ans) e.ExceptionAddress d.os.handles.next =
      { d₁.restorePending with stepping := false } := by
    simp only [Debugger.handleStep, if_neg hnot]
  have hs₁ : d₁.stepping = true := hstep
  rw [handleException_of_opened (hi.only.reliable _), dispatch_step hcode hs₁]
  change Calm ans tid starts A ((d₁.handleStep (answering ans) e.ExceptionAddress
    d.os.handles.next).closing d.os.handles.next) ∧ ((d₁.handleStep (answering ans)
    e.ExceptionAddress d.os.handles.next).closing d.os.handles.next).trace = d.trace
  rw [hhandle]
  exact ⟨⟨rfl, hneed, hwait, Or.inl hnot, htrap'.trans htrap,
    hforce.of_same (fun _ _ => Iff.rfl) rfl rfl⟩, restorePending_trace d₁⟩

/-! ## A software hit -/

/-- Neither an int3 nor a slot is in the way of the instruction at `a`. -/
structure Free (tid : DWORD) (a : LPVOID b) (d : Debugger b) : Prop where
  armed : ¬ d.Armed a
  slots : ∀ i s, d.slots tid i = some s → s.address ≠ a

theorem hit_sameSlots {e : ExceptionEvent b} (ho : d.os.fails (.openThread e.dwThreadId) = false)
    (hbp : e.ExceptionCode = EXCEPTION_BREAKPOINT) :
    (d.handleException (answering ans) e).slots = d.slots ∧
      (d.handleException (answering ans) e).threads = d.threads := by
  have hs : SameHardware (d.opened e.dwThreadId) ((d.opened e.dwThreadId).handleBreakpoint
      (answering ans) e.ExceptionAddress d.os.handles.next) := handleBreakpoint_sameHardware _
  rw [handleException_of_opened ho, dispatch_breakpoint hbp]
  exact ⟨hs.slots, hs.threads⟩

theorem Intact.armed_restoreBreakpoint (h : Intact tid starts ref event d) {a : LPVOID b}
    (hcode : ref a ≠ int3) (x : LPVOID b) :
    (d.restoreBreakpoint a).Armed x ↔ x ≠ a ∧ d.Armed x := by
  by_cases hx : x = a
  · rw [hx]
    exact iff_of_false (h.restoreBreakpoint_not_armed hcode) (fun hc => hc.1 rfl)
  · rw [restoreBreakpoint_armed_of_ne h.patched.accessible hx]
    exact ⟨fun hd => ⟨hx, hd⟩, fun hd => hd.2⟩

theorem Intact.armed_hit (hi : Intact tid starts ref none d) {e : ExceptionEvent b}
    (htid : e.dwThreadId = tid) (hhit : d.SoftwareHit e) (hcode : ref e.ExceptionAddress ≠ int3)
    (x : LPVOID b) :
    (d.handleException (answering ans) e).Armed x ↔ x ≠ e.ExceptionAddress ∧ d.Armed x := by
  subst htid
  have hmem : (d.handleException (answering ans) e).os.memory =
      ((d.opened e.dwThreadId).restoreBreakpoint e.ExceptionAddress).os.memory := by
    rw [(hit_sameRestore hhit).memory]
    cases d.hitAnswer ans e <;> rfl
  rw [Armed, hmem]
  exact hi.opened.armed_restoreBreakpoint hcode x

section Hit

variable (h : Calm ans tid starts A d) (hi : Intact tid starts ref none d) (hA : A.Distinct)
  {e : ExceptionEvent b} (hbp : e.ExceptionCode = EXCEPTION_BREAKPOINT) (htid : e.dwThreadId = tid)
  (ha : e.ExceptionAddress ∈ A.sw) (hcode : ref e.ExceptionAddress ≠ int3)

include h hi hbp ha hcode in
theorem Calm.softwareHit : d.SoftwareHit e :=
  ⟨hi.only.reliable _, hbp, hi.mem_of_armed hcode ((h.inForce.armed _).mp ha).2⟩

include h hi hA hbp htid ha hcode

theorem Calm.inForce_hit :
    InForce tid starts (A.disarm e.ExceptionAddress) (d.handleException (answering ans) e) ∧
      Free tid e.ExceptionAddress (d.handleException (answering ans) e) := by
  have hsoft : d.SoftwareHit e := h.softwareHit hi hbp ha hcode
  obtain ⟨hslots, hthreads⟩ : _ ∧ (d.handleException (answering ans) e).threads = d.threads :=
    hit_sameSlots hsoft.1 hbp
  have harmed : ∀ x, (d.handleException (answering ans) e).Armed x ↔
      x ≠ e.ExceptionAddress ∧ d.Armed x := fun x => hi.armed_hit htid hsoft hcode x
  refine ⟨h.inForce.disarm (fun x _ => harmed x) (congrFun hslots _) hthreads,
    fun hc => ((harmed _).mp hc).1 rfl, fun i s hslot heq => ?_⟩
  rw [hslots, h.inForce.slots] at hslot
  exact hA.kinds i s.address (Arms.slots_eq_some hslot).1 (heq ▸ ha)

/-- A hit is reported once, and what is in force next depends on the answer. -/
theorem Calm.breakpoint :
    ∃ bpType A', A' = (if bpType = .RESTORE then A else A.disarm e.ExceptionAddress) ∧
      (Calm ans tid starts A' (d.handleException (answering ans) e) ∨
        Awaiting tid starts A' (d.handleException (answering ans) e)) ∧
      Free tid e.ExceptionAddress (d.handleException (answering ans) e) ∧
      (d.handleException (answering ans) e).trace =
        d.trace ++ [(.onBreakpoint e.ExceptionAddress d.os.handles.next, bpType)] := by
  obtain ⟨hforce, hfree⟩ := h.inForce_hit hi hA hbp htid ha hcode
  have hsoft : d.SoftwareHit e := h.softwareHit hi hbp ha hcode
  subst htid
  have hhit : Hit d (d.handleException (answering ans) e) e.dwThreadId e.ExceptionAddress
      d.os.handles.next (d.hitAnswer ans e) := hit_handleException hi.only.reliable hbp hsoft.2.2
  let d₁ := (d.opened e.dwThreadId).restoreBreakpoint e.ExceptionAddress
  have hs : SameRestore (d₁.afterHit e.ExceptionAddress (d.hitAnswer ans e))
      (d.handleException (answering ans) e) := hit_sameRestore hsoft
  have hf : PatchFrame (d.opened e.dwThreadId) d₁ := restoreBreakpoint_frame _ _
  have hneed : d₁.needToRestoreBreakpoint = false :=
    (congrArg needToRestoreBreakpoint hf.rest).trans h.notNeeded
  have hwait : d₁.restoreHwBP = false := (congrArg restoreHwBP hf.rest).trans h.notWaiting
  have hlast : d₁.lastBpType = d.lastBpType := (congrArg lastBpType hf.rest).trans rfl
  have htrap := hhit.trapFlag
  have hsilent : d.hitAnswer ans e = .SINGLE_STEP →
      d.lastBpType ≠ BreakpointAction.SINGLE_STEP.toInt :=
    fun hans => h.silent.resolve_right (fun hnever => hnever _ _ hans)
  refine ⟨d.hitAnswer ans e, _, rfl, ?_, hfree, hhit.trace⟩
  cases hans : d.hitAnswer ans e with
  | BREAK =>
    rw [hans] at hs htrap
    refine Or.inl ⟨hs.stepping, hs.needToRestoreBreakpoint.trans hneed, hs.restoreHwBP.trans hwait,
      Or.imp_left (fun hl => ?_) h.silent, htrap.trans h.trapFlag, hforce⟩
    rw [hs.lastBpType]
    exact fun hl' => hl (hlast.symm.trans hl')
  | RESTORE =>
    rw [hans] at hs htrap
    have haddr : (d.handleException (answering ans) e).bpAddrToRestore = e.ExceptionAddress :=
      hs.bpAddrToRestore
    refine Or.inr ⟨hs.stepping, ?_, htrap,
      .software hs.needToRestoreBreakpoint (hs.restoreHwBP.trans hwait) hforce ?_⟩
    · rw [hs.lastBpType]
      change BreakpointAction.RESTORE.toInt ≠ BreakpointAction.SINGLE_STEP.toInt
      decide
    · rw [if_pos rfl, haddr, Arms.arm_disarm ha]
  | SINGLE_STEP =>
    rw [hans] at hs htrap
    refine Or.inr ⟨hs.stepping, ?_, htrap,
      .nothing (hs.needToRestoreBreakpoint.trans hneed) (hs.restoreHwBP.trans hwait) hforce⟩
    rw [hs.lastBpType]
    exact fun hl => hsilent hans (hlast.symm.trans hl)

end Hit

/-! ## A hardware hit -/

theorem firstSlotAt_of_all {context : DWORD → Context b} {a : LPVOID b} {i : Fin 4}
    {tids : List DWORD} (hne : tids ≠ []) (hall : ∀ t ∈ tids, t = tid)
    (hi : SlotAt context tid a i) (hmin : ∀ j < i, ¬ SlotAt context tid a j) :
    FirstSlotAt context a i tids := by
  cases tids with
  | nil => exact absurd rfl hne
  | cons t tids =>
    obtain rfl := hall t List.mem_cons_self
    exact Or.inl ⟨hi, hmin⟩

theorem Intact.listed_ne_nil (hi : Intact tid starts ref event d) (hne : d.threads ≠ []) :
    d.listed ≠ [] := by
  obtain ⟨thread, hmem⟩ := List.exists_mem_of_ne_nil _ hne
  have hl := (hi.handles.threads thread hmem).2
  exact List.ne_nil_of_mem (List.mem_filterMap.mpr ⟨thread, hmem, hl⟩)

theorem slots_of_slotAt {a : LPVOID b} {j : Fin 4} (h : SlotAt d.os.context tid a j) :
    ∃ s, d.slots tid j = some s ∧ s.address = a :=
  ⟨_, if_pos h.1, h.2⟩

theorem InForce.isHardwareBreakpointAt (h : InForce tid starts A d)
    (hi : Intact tid starts ref event d) (hA : A.Distinct) {i : Fin 4} {a : LPVOID b}
    (ha : A.hw i = some a) : d.isHardwareBreakpointAt a = .ofSlot i := by
  have hslot : d.slots tid i = some ⟨a, .EXECUTE, .BYTE⟩ := by
    rw [h.slots, Arms.slots, ha]
    rfl
  obtain ⟨hen, hs⟩ := slot_eq_some hslot
  have hthreads : d.threads ≠ [] := h.threads ⟨i, by rw [ha]; exact Option.some_ne_none a⟩
  rw [isHardwareBreakpointAt_eq_ofSlot hi.only.reliable]
  refine firstSlotAt_of_all (hi.listed_ne_nil hthreads) (fun t ht => hi.only.mem_listed ht)
    ⟨hen, (congrArg Slot.address hs).symm⟩ (fun j hj hat => ?_)
  obtain ⟨s, hsj, haddr⟩ := slots_of_slotAt hat
  rw [h.slots] at hsj
  have hhw := (Arms.slots_eq_some hsj).1
  rw [haddr] at hhw
  exact absurd (hA.slots j i a hhw ha) (ne_of_lt hj)

section AnswerHardware

variable {hThread : HANDLE} {i : Fin 4} {a : LPVOID b}

theorem Calm.answerHardware_break (h : Calm ans tid starts A d) (ho : OnlyThread tid d) :
    Calm ans tid starts (A.put i none) (d.answerHardware a hThread (.ofSlot i) .BREAK) := by
  have hf := clearHardwareBreakpoint_frame (.ofSlot i) d
  have hs := hf.sameRestore
  refine ⟨hs.stepping.trans h.stepping, hs.needToRestoreBreakpoint.trans h.notNeeded,
    hs.restoreHwBP.trans h.notWaiting, Or.imp_left (fun hlast => ?_) h.silent,
    (hf.trapFlag tid).trans h.trapFlag, h.inForce.clearHardwareBreakpoint ho i⟩
  change (d.clearHardwareBreakpoint (.ofSlot i)).1.lastBpType ≠ _
  rwa [hs.lastBpType]

theorem Calm.answerHardware_singleStep (h : Calm ans tid starts A d) (ho : OnlyThread tid d)
    (hl : d.os.handles.lookup hThread = some tid)
    (hsilent : d.lastBpType ≠ BreakpointAction.SINGLE_STEP.toInt) :
    Awaiting tid starts (A.put i none) (d.answerHardware a hThread (.ofSlot i) .SINGLE_STEP) ∧
      InForce tid starts (A.put i none)
        (d.answerHardware a hThread (.ofSlot i) .SINGLE_STEP) := by
  let d₁ : Debugger b := { d.enableSingleStep hThread with stepping := true }
  have hc := enableSingleStep_frame hThread d
  have hs₁ := hc.sameRestore
  have ho₁ : OnlyThread tid d₁ := by
    have ho' := hc.sameHardware.onlyThread ho
    exact ⟨ho'.reliable, ho'.process, ho'.listed⟩
  have hforce₁ : InForce tid starts A d₁ :=
    (h.inForce.of_control hc).of_same (fun _ _ => Iff.rfl) rfl rfl
  have hforce := hforce₁.clearHardwareBreakpoint ho₁ i
  have hf := clearHardwareBreakpoint_frame (.ofSlot i) d₁
  have hs := hf.sameRestore
  have hneed := hs.needToRestoreBreakpoint.trans (hs₁.needToRestoreBreakpoint.trans h.notNeeded)
  have hwait := hs.restoreHwBP.trans (hs₁.restoreHwBP.trans h.notWaiting)
  have htrap := (hf.trapFlag tid).trans (enableSingleStep_trapFlag ho.reliable hl)
  refine ⟨⟨hs.stepping, ?_, htrap, .nothing hneed hwait hforce⟩, hforce⟩
  have hlast : (d₁.clearHardwareBreakpoint (.ofSlot i)).1.lastBpType = d.lastBpType :=
    hs.lastBpType.trans hs₁.lastBpType
  change (d₁.clearHardwareBreakpoint (.ofSlot i)).1.lastBpType ≠ _
  rwa [hlast]

theorem Calm.answerHardware_restore (h : Calm ans tid starts A d) (ho : OnlyThread tid d)
    (hl : d.os.handles.lookup hThread = some tid) (ha : A.hw i = some a)
    (hreg : d.isHardwareBreakpointAt a = .ofSlot i) :
    Awaiting tid starts A (d.answerHardware a hThread (.ofSlot i) .RESTORE) ∧
      InForce tid starts (A.put i none) (d.answerHardware a hThread (.ofSlot i) .RESTORE) := by
  obtain ⟨s, hRead, hslot, hread⟩ := ho.hit_slot hreg
  have haddr : s.address = a := by
    rw [h.inForce.slots] at hslot
    exact Option.some.inj ((Arms.slots_eq_some hslot).1.symm.trans ha)
  let d₁ := d.afterHardware a hThread (.ofSlot i)
  have ho₁ : OnlyThread tid d₁ := ⟨ho.reliable, ho.process, ho.listed⟩
  have hl₁ : d₁.os.handles.lookup hThread = some tid := hl
  have hforce₁ : InForce tid starts A d₁ := h.inForce.of_same (fun _ _ => Iff.rfl) rfl rfl
  obtain ⟨-, hp⟩ := clearHardwareBreakpointOnThread_puts ho₁.reliable hl₁ i
  let d₂ := (d₁.clearHardwareBreakpointOnThread hThread (.ofSlot i)).1
  have hthreads : d₂.threads ≠ [] := by
    rw [hp.threads]
    exact hforce₁.threads ⟨i, by rw [ha]; exact Option.some_ne_none a⟩
  have hforce₂ : InForce tid starts (A.put i none) d₂ :=
    hforce₁.put none hp.frame.memory hp.slots_self hthreads
  have ho₂ : OnlyThread tid d₂ := hp.onlyThread ho₁
  have hl₂ : d₂.os.handles.lookup hThread = some tid := by
    rw [hp.handles]
    exact hl₁
  have hs₂ := hp.frame.sameRestore
  have hc := enableSingleStep_frame hThread d₂
  have hs := hc.sameRestore
  have hforce : InForce tid starts (A.put i none)
      (d.answerHardware a hThread (.ofSlot i) .RESTORE) :=
    (hforce₂.of_control hc).of_same (fun _ _ => Iff.rfl) rfl rfl
  have hrec : (d.answerHardware a hThread (.ofSlot i) .RESTORE).hwBPToRestore =
      ⟨hRead, a, .ofSlot i, s.type, s.len⟩ := by
    have hkept : d₂.hwBPToRestore = d.getBreakpointByReg (.ofSlot i) :=
      congrArg hwBPToRestore hp.frame.rest
    rw [hread, haddr] at hkept
    exact hc.sameHardware.hwBPToRestore.trans hkept
  refine ⟨⟨rfl, ?_, enableSingleStep_trapFlag ho₂.reliable hl₂, .hardware i
    (hs.needToRestoreBreakpoint.trans hs₂.needToRestoreBreakpoint)
    (hs.restoreHwBP.trans hs₂.restoreHwBP) ?_ hforce ?_⟩, hforce⟩
  · have hlast := hs.lastBpType.trans hs₂.lastBpType
    change (d₂.enableSingleStep hThread).lastBpType ≠ _
    rw [hlast]
    change BreakpointAction.RESTORE.toInt ≠ BreakpointAction.SINGLE_STEP.toInt
    decide
  · rw [hrec]
  · rw [hrec, Arms.put_put ha]

theorem Calm.answerHardware (h : Calm ans tid starts A d) (ho : OnlyThread tid d)
    (hl : d.os.handles.lookup hThread = some tid) (ha : A.hw i = some a)
    (hreg : d.isHardwareBreakpointAt a = .ofSlot i) {c : Call b} {d₀ : Debugger b}
    {bpType : BreakpointAction} (hans : ans c d₀ = bpType) :
    let d' := d.answerHardware a hThread (.ofSlot i) bpType
    (∃ A', A' = (if bpType = .RESTORE then A else A.put i none) ∧
        (Calm ans tid starts A' d' ∨ Awaiting tid starts A' d')) ∧
      InForce tid starts (A.put i none) d' := by
  cases bpType with
  | BREAK =>
    have hcalm : Calm ans tid starts (A.put i none)
        (d.answerHardware a hThread (.ofSlot i) .BREAK) := h.answerHardware_break ho
    exact ⟨⟨_, rfl, Or.inl hcalm⟩, hcalm.inForce⟩
  | SINGLE_STEP =>
    have hsilent := h.silent.resolve_right (fun hnever => hnever _ _ hans)
    obtain ⟨hawait, hforce⟩ := h.answerHardware_singleStep ho hl hsilent
    exact ⟨⟨_, rfl, Or.inr hawait⟩, hforce⟩
  | RESTORE =>
    obtain ⟨hawait, hforce⟩ := h.answerHardware_restore ho hl ha hreg
    exact ⟨⟨_, rfl, Or.inr hawait⟩, hforce⟩

end AnswerHardware

/-- A slot that fires is disabled, for good or until the next step, and reported once. -/
theorem Calm.inForce_hardware (h : Calm ans tid starts A d) (hi : Intact tid starts ref none d)
    (hA : A.Distinct) {e : ExceptionEvent b} (hss : e.ExceptionCode = EXCEPTION_SINGLE_STEP)
    (htid : e.dwThreadId = tid) {i : Fin 4} (ha : A.hw i = some e.ExceptionAddress) :
    ∃ bpType A', A' = (if bpType = .RESTORE then A else A.put i none) ∧
      (Calm ans tid starts A' (d.handleException (answering ans) e) ∨
        Awaiting tid starts A' (d.handleException (answering ans) e)) ∧
      InForce tid starts (A.put i none) (d.handleException (answering ans) e) ∧
      (d.handleException (answering ans) e).trace = d.trace ++
        [(.onHardwareBreakpoint e.ExceptionAddress d.os.handles.next (.ofSlot i), bpType)] := by
  subst htid
  let hThread := d.os.handles.next
  let d₁ := d.opened e.dwThreadId
  let c : Call b := .onHardwareBreakpoint e.ExceptionAddress hThread (.ofSlot i)
  let d₂ : Debugger b := { d₁ with trace := d₁.trace ++ [(c, ans c d₁)] }
  have hi₂ : Intact e.dwThreadId starts ref (some hThread) d₂ := hi.opened.traced _
  have h₂ : Calm ans e.dwThreadId starts A d₂ :=
    h.of_same ⟨rfl, rfl, rfl, rfl, rfl, rfl, rfl⟩ rfl rfl rfl
  have hreg : d₂.isHardwareBreakpointAt e.ExceptionAddress = .ofSlot i :=
    h₂.inForce.isHardwareBreakpointAt hi₂ hA ha
  have hreg₁ : d₁.isHardwareBreakpointAt e.ExceptionAddress = .ofSlot i := hreg
  have hhandle : d.handleException (answering ans) e =
      (d₂.answerHardware e.ExceptionAddress hThread (.ofSlot i) (ans c d₁)).closing hThread := by
    have hs₁ : d₁.stepping = false := h.stepping
    rw [handleException_of_opened (hi.only.reliable _), dispatch_hardware hss hs₁, handleHardware]
    simp only [call_answering]
    rw [hreg₁, if_pos (DRReg.ofSlot_ne_NOP i)]
  obtain ⟨⟨A', hA', hout⟩, hforce⟩ := h₂.answerHardware hi₂.only (hi₂.handles.held hThread rfl) ha
    hreg (rfl : ans c d₁ = ans c d₁)
  rw [hhandle]
  refine ⟨ans c d₁, A', hA', ?_, hforce.of_same (fun _ _ => Iff.rfl) rfl rfl,
    answerHardware_trace _ _ _ _⟩
  rcases hout with hcalm | hawait
  · exact Or.inl (hcalm.of_same (sameRestore_closing _ _) rfl rfl rfl)
  · exact Or.inr ⟨hawait.stepping, hawait.silent, hawait.trapFlag,
      hawait.restores.of_same (fun _ _ => Iff.rfl) rfl rfl rfl rfl rfl rfl⟩

theorem Calm.hardware (h : Calm ans tid starts A d) (hi : Intact tid starts ref none d)
    (hA : A.Distinct) {e : ExceptionEvent b} (hss : e.ExceptionCode = EXCEPTION_SINGLE_STEP)
    (htid : e.dwThreadId = tid) {i : Fin 4} (ha : A.hw i = some e.ExceptionAddress)
    (hstart : e.ExceptionAddress ∈ starts) :
    ∃ bpType A', A' = (if bpType = .RESTORE then A else A.put i none) ∧
      (Calm ans tid starts A' (d.handleException (answering ans) e) ∨
        Awaiting tid starts A' (d.handleException (answering ans) e)) ∧
      Free tid e.ExceptionAddress (d.handleException (answering ans) e) ∧
      (d.handleException (answering ans) e).trace = d.trace ++
        [(.onHardwareBreakpoint e.ExceptionAddress d.os.handles.next (.ofSlot i), bpType)] := by
  obtain ⟨bpType, A', hA', hout, hforce, htrace⟩ := h.inForce_hardware hi hA hss htid ha
  refine ⟨bpType, A', hA', hout, ⟨?_, fun j s hj heq => ?_⟩, htrace⟩
  · exact fun harmed => hA.kinds i _ ha ((hforce.armed _).mpr ⟨hstart, harmed⟩)
  · rw [hforce.slots] at hj
    have hhw := (Arms.slots_eq_some hj).1
    rw [heq] at hhw
    obtain rfl := hA.slots j i _ (Arms.put_none hhw) ha
    have hnone : Function.update A.hw j none j = some e.ExceptionAddress := hhw
    rw [Function.update_self] at hnone
    cases hnone

end Debugger
end RoboDbg
