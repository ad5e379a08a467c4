import RoboDbg.Reentry
import RoboDbg.Registers
import RoboDbg.Transparency

/-!
# Callbacks that change the program

A callback of a breakpoint may write registers, flags and memory before the thread goes
on. What the thread then does is what the program would do if the change stood in front
of the instruction of the breakpoint.
-/

namespace RoboDbg

open Stutter Runs Debugger Overlay

variable {b : Build} {σ : Type*}

/-! ## The debugged machine with such callbacks -/

/-- What a callback does to the program, from the call without its handle and from the
memory and the registers that it finds. -/
abbrev Edit (b : Build) (σ : Type*) := Call b → Exec b σ

namespace Os

/-- Registers and flags are set, and memory is written by `writeMemory`. -/
def edit (os : Os b) (tid : DWORD) (e : Effect b σ) : Os b :=
  withControl
    { os with memory := e.writes.foldl (fun m w => m.store .writeMemory w.1 w.2) os.memory }
    tid e.cpu.Ip e.cpu.EFlags

end Os

def Debugger.edit (tid : DWORD) (e : Effect b σ) (d : Debugger b) : Debugger b :=
  { d with os := d.os.edit tid e }

namespace Machine

def edited (tid : DWORD) (e : Effect b σ) (m : Machine b σ) : Machine b σ :=
  ⟨m.dbg.edit tid e, e.cpu.data⟩

def effectOf (edit : Edit b σ) (tid : DWORD) (c : Call b) (m : Machine b σ) : Effect b σ :=
  edit c.anonymous m.dbg.os.memory.bytes (m.cpu tid)

/-- The state in which a callback returns; only those of breakpoints change the program. -/
def callback (edit : Edit b σ) (tid : DWORD) (c : Call b) (m : Machine b σ) : Machine b σ :=
  if c.returnsAction then m.edited tid (m.effectOf edit tid c) else m

/-- The callbacks, for given registers that the debugger does not keep. -/
def editing (edit : Edit b σ) (ans : Call b → Debugger b → BreakpointAction) (tid : DWORD)
    (data : σ) : Callbacks b := fun c d =>
  let d' := (callback edit tid c ⟨d, data⟩).dbg
  (d', ans c d')

def reportEditing (edit : Edit b σ) (ans : Call b → Debugger b → BreakpointAction) (tid : DWORD)
    (code : DWORD) (a : LPVOID b) (m : Machine b σ) : Machine b σ :=
  let e : ExceptionEvent b := ⟨code, a, tid, 0, 0⟩
  let r := m.dbg.arrive (.EXCEPTION e)
  ⟨m.dbg.handleException (editing edit ans tid m.data) e,
    match r.2 with
    | none => m.data
    | some c => (callback edit tid c ⟨r.1, m.data⟩).data⟩

def stepEditing (exec : Exec b σ) (edit : Edit b σ) (ans : Call b → Debugger b → BreakpointAction)
    (tid : DWORD) (m : Machine b σ) : Machine b σ :=
  let os := m.dbg.os
  let ctx := os.context tid
  if ctx.Faults then m.reportEditing edit ans tid EXCEPTION_SINGLE_STEP ctx.Ip
  else if os.memory.bytes ctx.Ip = int3 then
    (m.behindInt3 tid).reportEditing edit ans tid EXCEPTION_BREAKPOINT ctx.Ip
  else
    let e := exec os.memory.bytes (m.cpu tid)
    let m : Machine b σ := ⟨{ m.dbg with os := os.perform tid e }, e.cpu.data⟩
    if ctx.trapFlag then m.reportEditing edit ans tid EXCEPTION_SINGLE_STEP e.cpu.Ip else m

end Machine

/-! ## The program with the changes in it -/

def Bare.edited (e : Effect b σ) (s : Bare b σ) : Bare b σ := ⟨writeAll e.writes s.memory, e.cpu⟩

def Bare.callback (edit : Edit b σ) (c : Call b) (s : Bare b σ) : Bare b σ :=
  s.edited (edit c s.memory s.cpu)

/-- One instruction, with the change of its breakpoint in front of it. An answer other
than `RESTORE` puts the breakpoint out of force. -/
inductive Watched.EditStep (exec : Exec b σ) (edit : Edit b σ) :
    Watched b σ → Option (Call b × BreakpointAction) → Watched b σ → Prop
  | quiet {w : Watched b σ} (hsw : w.bare.cpu.Ip ∉ w.arms.sw)
      (hhw : ∀ i, w.arms.hw i ≠ some w.bare.cpu.Ip) :
      EditStep exec edit w none ⟨w.bare.next exec, w.arms⟩
  | breakpoint {w : Watched b σ} (hsw : w.bare.cpu.Ip ∈ w.arms.sw) (bpType : BreakpointAction) :
      EditStep exec edit w (some (.onBreakpoint w.bare.cpu.Ip 0, bpType))
        ⟨(w.bare.callback edit (.onBreakpoint w.bare.cpu.Ip 0)).next exec,
          if bpType = .RESTORE then w.arms else w.arms.disarm w.bare.cpu.Ip⟩
  | hardware {w : Watched b σ} {i : Fin 4} (hhw : w.arms.hw i = some w.bare.cpu.Ip)
      (bpType : BreakpointAction) :
      EditStep exec edit w (some (.onHardwareBreakpoint w.bare.cpu.Ip 0 (.ofSlot i), bpType))
        ⟨(w.bare.callback edit (.onHardwareBreakpoint w.bare.cpu.Ip 0 (.ofSlot i))).next exec,
          if bpType = .RESTORE then w.arms else w.arms.put i none⟩

inductive Call.Reports (a : LPVOID b) : Call b → Prop
  | breakpoint : Reports a (.onBreakpoint a 0)
  | hardware (i : Fin 4) : Reports a (.onHardwareBreakpoint a 0 (.ofSlot i))

/-- The change of a callback at the next instruction: it reads and writes no first byte
of an instruction, and lets the thread go on there or where no breakpoint is set. -/
structure ProperEdit (edit : Edit b σ) (starts used : Set (LPVOID b)) (c : Call b) (s : Bare b σ) :
    Prop where
  reads : ∀ m, (∀ a ∉ starts, m a = s.memory a) → edit c m s.cpu = edit c s.memory s.cpu
  writes : ∀ w ∈ (edit c s.memory s.cpu).writes, w.1 ∉ starts
  ip : (edit c s.memory s.cpu).cpu.Ip = s.cpu.Ip ∨ (edit c s.memory s.cpu).cpu.Ip ∉ used

/-- States of a program that neither its instructions nor the callbacks leave. -/
structure Program (exec : Exec b σ) (edit : Edit b σ) (starts used : Set (LPVOID b))
    (P : Set (Bare b σ)) : Prop where
  behaved : ∀ s ∈ P, WellBehaved exec starts s
  next : ∀ s ∈ P, s.next exec ∈ P
  proper : ∀ s ∈ P, ∀ c : Call b, c.Reports s.cpu.Ip → ProperEdit edit starts used c s
  callback : ∀ s ∈ P, ∀ c : Call b, c.Reports s.cpu.Ip → s.callback edit c ∈ P

namespace Program

variable {exec : Exec b σ} {edit : Edit b σ} {starts used : Set (LPVOID b)} {P : Set (Bare b σ)}

theorem iterate (hP : Program exec edit starts used P) {s : Bare b σ} (hs : s ∈ P) (n : ℕ) :
    WellBehaved exec starts ((Bare.next exec)^[n] s) := by
  apply hP.behaved
  induction n with
  | zero => exact hs
  | succ n ih =>
    rw [Function.iterate_succ_apply']
    exact hP.next _ ih

end Program

/-! ## Changes before and after the loop's part -/

namespace Debugger

variable {tid : DWORD} {starts : Set (LPVOID b)} {ref : LPVOID b → BYTE} {event : Option HANDLE}
  {A : Arms b} {d : Debugger b} {e : Effect b σ}

theorem edit_sameHardware (tid : DWORD) (e : Effect b σ) (d : Debugger b) :
    SameHardware d (d.edit tid e) :=
  sameHardware_withControl d tid _ e.cpu.Ip e.cpu.EFlags

theorem context_edit (tid : DWORD) (e : Effect b σ) (d : Debugger b) :
    (d.edit tid e).os.context tid =
      { d.os.context tid with Ip := e.cpu.Ip, EFlags := e.cpu.EFlags } := by
  simp only [Debugger.edit, Os.edit, Os.withControl, Os.context_withContext, Function.update_self]
  rfl

theorem edit_bytes (tid : DWORD) (e : Effect b σ) (d : Debugger b) :
    (d.edit tid e).os.memory.bytes = writeAll e.writes d.os.memory.bytes :=
  foldl_store_bytes .writeMemory e.writes d.os.memory

theorem edit_armed (hws : ∀ w ∈ e.writes, w.1 ∉ starts) {a : LPVOID b} (ha : a ∈ starts) :
    (d.edit tid e).Armed a ↔ d.Armed a := by
  have hne : ∀ w ∈ e.writes, w.1 ≠ a := by
    rintro w hw rfl
    exact hws w hw ha
  rw [Armed, Armed, edit_bytes, writeAll_of_not_mem hne]

theorem Intact.edit (h : d.Intact tid starts ref event) (hws : ∀ w ∈ e.writes, w.1 ∉ starts) :
    (d.edit tid e).Intact tid starts (writeAll e.writes ref) event := by
  have hs := edit_sameHardware tid e d
  have hunlisted : ∀ w ∈ e.writes, d.table w.1 = none := by
    intro w hw
    by_contra hne
    have hlisted : w.1 ∈ d.breakpoints :=
      Std.TreeMap.isSome_getElem?_iff_mem.mp (Option.isSome_iff_ne_none.mpr hne)
    exact hws w hw (h.listed _ hlisted)
  have hcovers := covers_writeAll h.patched.covers hunlisted
  rw [← edit_bytes tid e d] at hcovers
  refine ⟨hs.onlyThread h.only, h.handles.of_same hs, ⟨?_, hcovers⟩, h.listed, h.pending, ?_,
    h.record⟩
  · exact foldl_store_accessible .writeMemory e.writes h.patched.accessible
  · rw [hs.slots]
    exact h.execute

theorem Calm.edit {ans : Call b → Debugger b → BreakpointAction} (h : Calm ans tid starts A d)
    (hws : ∀ w ∈ e.writes, w.1 ∉ starts) (hflags : e.cpu.EFlags.getLsbD 8 = false) :
    Calm ans tid starts A (d.edit tid e) := by
  have hs := edit_sameHardware tid e d
  refine ⟨h.stepping, h.notNeeded, h.notWaiting, h.silent, ?_,
    h.inForce.of_same (fun a ha => edit_armed hws ha) (congrFun hs.slots tid) hs.threads⟩
  rw [context_edit]
  exact hflags

/-! ## The state in which a callback is called -/

/-- Two states in which the same callback is called and has the same outcome. -/
theorem handleException_congr {cb cb' : Callbacks b} {ev : ExceptionEvent b}
    {d' d₁ d₁' : Debugger b} {c : Call b} (h : d.arrive (.EXCEPTION ev) = (d₁, some c))
    (h' : d'.arrive (.EXCEPTION ev) = (d₁', some c))
    (hnext : d'.os.handles.next = d.os.handles.next) (hcall : d₁.call cb c = d₁'.call cb' c) :
    d.handleException cb ev = d'.handleException cb' ev := by
  have he := congrArg Prod.fst (handleEvent_eq cb (.EXCEPTION ev) d)
  have he' := congrArg Prod.fst (handleEvent_eq cb' (.EXCEPTION ev) d')
  simp only [h, h', hnext, hcall] at he he'
  exact he.trans he'.symm

def rewound (tid : DWORD) (a : LPVOID b) (x : BYTE) (d : Debugger b) : Debugger b :=
  { d with
    os := Os.withContext
      { d.os with
        memory := d.os.memory.store .restoreBreakpoint a x
        handles := d.os.handles.insert tid }
      tid (d.os.context tid).stepBack }

theorem arrive_armed {a : LPVOID b} {x : BYTE} (hr : d.os.Reliable)
    (hacc : d.os.memory.Accessible) (hx : d.breakpoints[a]? = some x) (ha : d.Armed a) :
    d.arrive (.EXCEPTION ⟨EXCEPTION_BREAKPOINT, a, tid, 0, 0⟩) =
      (d.rewound tid a x, some (.onBreakpoint a d.os.handles.next)) := by
  have hx₁ : (d.opened tid).breakpoints[a]? = some x := hx
  have hrestore := restoreBreakpoint_of_armed (d := d.opened tid) hacc hx₁ ha
  have hlookup : ((d.opened tid).restoreBreakpoint a).os.handles.lookup d.os.handles.next =
      some tid := by
    rw [hrestore]
    exact lookup_opened tid d
  have hr₁ : ((d.opened tid).restoreBreakpoint a).os.Reliable := by
    rw [hrestore]
    exact hr
  rw [arrive_of_opened (hr _)]
  simp only [arriveException, if_true, hx₁]
  rw [decrementIP_eq hr₁ hlookup, hrestore]
  rfl

theorem store_foldl_store (who who' : Writer) {ws : List (LPVOID b × BYTE)} {a : LPVOID b}
    (x : BYTE) (hws : ∀ w ∈ ws, w.1 ≠ a) (m : Memory b) :
    (ws.foldl (fun m w => m.store who w.1 w.2) m).store who' a x =
      ws.foldl (fun m w => m.store who w.1 w.2) (m.store who' a x) := by
  induction ws generalizing m with
  | nil => rfl
  | cons w ws ih =>
    have hne : w.1 ≠ a := hws w List.mem_cons_self
    rw [List.foldl_cons, List.foldl_cons, ih (fun v hv => hws v (List.mem_cons_of_mem w hv))]
    simp only [Memory.store, Function.update_comm hne]

def ahead (e : Effect b σ) : Effect b σ :=
  { e with cpu := { e.cpu with Ip := e.cpu.Ip + 1 } }

/-- A change by the callback of a breakpoint could as well have been made before it. -/
theorem rewound_edit {a : LPVOID b} (x : BYTE) (hws : ∀ w ∈ e.writes, w.1 ≠ a) :
    (d.edit tid (ahead e)).rewound tid a x = (d.rewound tid a x).edit tid e := by
  have hmem := store_foldl_store .writeMemory .restoreBreakpoint x hws d.os.memory
  simp only [Debugger.edit, rewound, Os.edit, Os.withControl, Os.withContext, Os.withThread,
    Os.context, Function.update_self, Function.update_idem, ahead, Context.stepBack, hmem,
    BitVec.add_sub_cancel]

end Debugger

/-! ## A report with a change is a report after the change -/

section Report

variable {exec : Exec b σ} {edit : Edit b σ} {ans : Call b → Debugger b → BreakpointAction}
  {starts used : Set (LPVOID b)} {tid : DWORD} {m : Machine b σ} {s : Bare b σ} {A : Arms b}

theorem call_editing {c : Call b} (hc : c.returnsAction = true) (d : Debugger b) (data : σ) :
    d.call (Machine.editing edit ans tid data) c =
      (d.edit tid (Machine.effectOf edit tid c ⟨d, data⟩)).call (answering ans) c := by
  simp only [Debugger.call, Machine.editing, Machine.callback, if_pos hc]
  rfl

theorem Related.bytes_off (h : Related exec starts tid m s) {a : LPVOID b} (ha : a ∉ starts) :
    m.dbg.os.memory.bytes a = s.memory a := by
  by_contra hne
  obtain ⟨-, hfiled⟩ := h.intact.patched.covers.of_ne hne
  have hlisted : a ∈ m.dbg.breakpoints :=
    Std.TreeMap.isSome_getElem?_iff_mem.mp (Option.isSome_of_eq_some hfiled)
  exact ha (h.intact.listed a hlisted)

theorem Related.userFlags (h : Related exec starts tid m s) :
    (m.dbg.os.context tid).userFlags = s.cpu.EFlags :=
  congrArg Cpu.EFlags h.cpu

theorem Related.data (h : Related exec starts tid m s) : m.data = s.cpu.data :=
  congrArg Cpu.data h.cpu

/-- The callback of a breakpoint finds the program in its own state. -/
theorem Related.effectOf_rewound (h : Related exec starts tid m s)
    (hp : ProperEdit edit starts used (.onBreakpoint s.cpu.Ip 0) s) (hThread : HANDLE) (x : BYTE) :
    Machine.effectOf edit tid (.onBreakpoint s.cpu.Ip hThread)
        ⟨(m.behindInt3 tid).dbg.rewound tid s.cpu.Ip x, m.data⟩ =
      edit (.onBreakpoint s.cpu.Ip 0) s.memory s.cpu := by
  have hcpu : Machine.cpu tid (⟨(m.behindInt3 tid).dbg.rewound tid s.cpu.Ip x, m.data⟩ :
      Machine b σ) = s.cpu := by
    rw [← h.cpu]
    simp only [Machine.cpu, rewound, Machine.behindInt3, Os.withControl, Os.context_withContext,
      Function.update_self, Context.stepBack, BitVec.add_sub_cancel]
  rw [Machine.effectOf, hcpu]
  refine hp.reads _ (fun a ha => ?_)
  have hne : a ≠ s.cpu.Ip := fun heq => ha (heq ▸ h.well.ip)
  exact (Function.update_of_ne hne _ _).trans (h.bytes_off ha)

theorem Related.reportEditing_breakpoint (h : Related exec starts tid m s)
    (harmed : m.dbg.Armed s.cpu.Ip)
    (hp : ProperEdit edit starts used (.onBreakpoint s.cpu.Ip 0) s) :
    let e := edit (.onBreakpoint s.cpu.Ip 0) s.memory s.cpu
    (m.behindInt3 tid).reportEditing edit ans tid EXCEPTION_BREAKPOINT s.cpu.Ip =
      ⟨((m.behindInt3 tid).dbg.edit tid (ahead e)).handleException (answering ans)
        ⟨EXCEPTION_BREAKPOINT, s.cpu.Ip, tid, 0, 0⟩, e.cpu.data⟩ := by
  intro e
  let d := (m.behindInt3 tid).dbg
  let c : Call b := .onBreakpoint s.cpu.Ip d.os.handles.next
  have hne : m.dbg.os.memory.bytes s.cpu.Ip ≠ s.memory s.cpu.Ip := by
    rw [show m.dbg.os.memory.bytes s.cpu.Ip = int3 from harmed]
    exact Ne.symm (h.well.int3 _ h.well.ip)
  obtain ⟨-, hx⟩ := h.intact.patched.covers.of_ne hne
  have hr : d.os.Reliable := h.intact.only.reliable
  have hacc : d.os.memory.Accessible := h.intact.patched.accessible
  have hws : ∀ w ∈ e.writes, w.1 ≠ s.cpu.Ip := by
    rintro w hw heq
    exact hp.writes w hw (heq ▸ h.well.ip)
  have hacc' : (d.edit tid (ahead e)).os.memory.Accessible :=
    foldl_store_accessible .writeMemory e.writes hacc
  have harmed' : (d.edit tid (ahead e)).Armed s.cpu.Ip :=
    (edit_armed (e := ahead e) hp.writes h.well.ip).mpr harmed
  have harrive : d.arrive (.EXCEPTION ⟨EXCEPTION_BREAKPOINT, s.cpu.Ip, tid, 0, 0⟩) =
      (d.rewound tid s.cpu.Ip (s.memory s.cpu.Ip), some c) := arrive_armed hr hacc hx harmed
  have harrive' : (d.edit tid (ahead e)).arrive
      (.EXCEPTION ⟨EXCEPTION_BREAKPOINT, s.cpu.Ip, tid, 0, 0⟩) =
      ((d.rewound tid s.cpu.Ip (s.memory s.cpu.Ip)).edit tid e, some c) := by
    rw [← rewound_edit _ hws]
    exact arrive_armed hr hacc' hx harmed'
  have heffect := h.effectOf_rewound hp d.os.handles.next (s.memory s.cpu.Ip)
  have hcall : (d.rewound tid s.cpu.Ip (s.memory s.cpu.Ip)).call
        (Machine.editing edit ans tid m.data) c =
      ((d.rewound tid s.cpu.Ip (s.memory s.cpu.Ip)).edit tid e).call (answering ans) c := by
    rw [call_editing rfl, heffect]
  have hdata : (Machine.callback edit tid c
      ⟨d.rewound tid s.cpu.Ip (s.memory s.cpu.Ip), m.data⟩).data = e.cpu.data := by
    simp only [Machine.callback, c, Call.returnsAction, if_true, Machine.edited, heffect, d, e]
  have hhandle := handleException_congr harrive harrive' rfl hcall
  refine congrArg₂ Machine.mk hhandle ?_
  change (match (d.arrive _).2 with
    | none => m.data
    | some c => (Machine.callback edit tid c ⟨(d.arrive _).1, m.data⟩).data) = _
  rw [harrive]
  exact hdata

theorem Related.effectOf_opened (h : Related exec starts tid m s) {c : Call b} {hThread : HANDLE}
    {i : Fin 4} (hp : ProperEdit edit starts used (.onHardwareBreakpoint s.cpu.Ip 0 (.ofSlot i)) s)
    (hc : c = .onHardwareBreakpoint s.cpu.Ip hThread (.ofSlot i)) :
    Machine.effectOf edit tid c ⟨m.dbg.opened tid, m.data⟩ =
      edit (.onHardwareBreakpoint s.cpu.Ip 0 (.ofSlot i)) s.memory s.cpu := by
  have hcpu : Machine.cpu tid (⟨m.dbg.opened tid, m.data⟩ : Machine b σ) = s.cpu := h.cpu
  rw [Machine.effectOf, hcpu, hc]
  exact hp.reads _ (fun a ha => h.bytes_off ha)

theorem Related.reportEditing_hardware (h : Related exec starts tid m s)
    (hcalm : Calm ans tid starts A m.dbg) (hA : A.Distinct) {i : Fin 4}
    (hhw : A.hw i = some s.cpu.Ip)
    (hp : ProperEdit edit starts used (.onHardwareBreakpoint s.cpu.Ip 0 (.ofSlot i)) s) :
    let e := edit (.onHardwareBreakpoint s.cpu.Ip 0 (.ofSlot i)) s.memory s.cpu
    m.reportEditing edit ans tid EXCEPTION_SINGLE_STEP s.cpu.Ip =
      ⟨(m.dbg.edit tid e).handleException (answering ans)
        ⟨EXCEPTION_SINGLE_STEP, s.cpu.Ip, tid, 0, 0⟩, e.cpu.data⟩ := by
  intro e
  let c : Call b := .onHardwareBreakpoint s.cpu.Ip m.dbg.os.handles.next (.ofSlot i)
  have harrive : ∀ d' : Debugger b, d'.os.Reliable → d'.stepping = false →
      (d'.opened tid).isHardwareBreakpointAt s.cpu.Ip = .ofSlot i →
      d'.os.handles = m.dbg.os.handles →
      d'.arrive (.EXCEPTION ⟨EXCEPTION_SINGLE_STEP, s.cpu.Ip, tid, 0, 0⟩) =
        (d'.opened tid, some c) := by
    intro d' hr hs hreg hhandles
    have hne : EXCEPTION_SINGLE_STEP ≠ EXCEPTION_BREAKPOINT := by decide
    have hs' : ¬ (d'.opened tid).stepping = true := by
      rw [show (d'.opened tid).stepping = false from hs]
      exact Bool.false_ne_true
    rw [arrive_of_opened (hr _)]
    simp only [arriveException, if_neg hne, if_neg (not_and_of_not_right _ hs'), if_true, hreg,
      DRReg.ofSlot_ne_NOP, ne_eq, not_false_eq_true, hhandles, c]
  have hreg : ∀ d' : Debugger b, ∀ ref, d'.Intact tid starts ref none →
      InForce tid starts A d' → (d'.opened tid).isHardwareBreakpointAt s.cpu.Ip = .ofSlot i := by
    intro d' ref hi hforce
    have hforce₁ : InForce tid starts A (d'.opened tid) :=
      hforce.of_same (fun _ _ => Iff.rfl) rfl rfl
    exact hforce₁.isHardwareBreakpointAt hi.opened hA hhw
  have hintact : (m.dbg.edit tid e).Intact tid starts (writeAll e.writes s.memory) none :=
    h.intact.edit hp.writes
  have hforce : InForce tid starts A (m.dbg.edit tid e) :=
    hcalm.inForce.of_same (fun a ha => edit_armed hp.writes ha)
      (congrFun (edit_sameHardware tid e m.dbg).slots tid) rfl
  have harrive₁ := harrive m.dbg h.intact.only.reliable hcalm.stepping
    (hreg m.dbg s.memory h.intact hcalm.inForce) rfl
  have harrive₂ := harrive (m.dbg.edit tid e) hintact.only.reliable hcalm.stepping
    (hreg _ _ hintact hforce) rfl
  have heffect : Machine.effectOf edit tid c ⟨m.dbg.opened tid, m.data⟩ = e :=
    h.effectOf_opened hp rfl
  have hcall : (m.dbg.opened tid).call (Machine.editing edit ans tid m.data) c =
      ((m.dbg.edit tid e).opened tid).call (answering ans) c := by
    rw [call_editing rfl, heffect]
    rfl
  have hdata : (Machine.callback edit tid c ⟨m.dbg.opened tid, m.data⟩).data = e.cpu.data := by
    simp only [Machine.callback, c, Call.returnsAction, if_true, Machine.edited, heffect]
  have hhandle := handleException_congr harrive₁ harrive₂ rfl hcall
  refine congrArg₂ Machine.mk hhandle ?_
  change (match (m.dbg.arrive _).2 with
    | none => m.data
    | some c => (Machine.callback edit tid c ⟨(m.dbg.arrive _).1, m.data⟩).data) = _
  rw [harrive₁]
  exact hdata

theorem cpu_of_edit {d : Debugger b} {e : Effect b σ} (hip : (d.os.context tid).Ip = e.cpu.Ip)
    (hflags : (d.os.context tid).userFlags = e.cpu.EFlags &&& ~~~0x100)
    (htrap : e.cpu.EFlags.getLsbD 8 = false) :
    Machine.cpu tid (⟨d, e.cpu.data⟩ : Machine b σ) = e.cpu := by
  rw [userFlags_of_no_trapFlag htrap] at hflags
  simp only [Machine.cpu, hip, hflags]

variable {P : Set (Bare b σ)}

theorem Related.breakpoint_edited (h : Related exec starts tid m s)
    (hP : Program exec edit starts used P) (hs : s ∈ P)
    (hcalm : Calm ans tid starts A m.dbg) (hA : A.Distinct) (hsw : s.cpu.Ip ∈ A.sw) :
    let c : Call b := .onBreakpoint s.cpu.Ip 0
    let m₁ := (m.behindInt3 tid).reportEditing edit ans tid EXCEPTION_BREAKPOINT s.cpu.Ip
    Related exec starts tid m₁ (s.callback edit c) ∧
      ∃ bpType, (Calm ans tid starts (if bpType = .RESTORE then A else A.disarm s.cpu.Ip) m₁.dbg ∨
          Awaiting tid starts (if bpType = .RESTORE then A else A.disarm s.cpu.Ip) m₁.dbg) ∧
        InForce tid starts (A.disarm s.cpu.Ip) m₁.dbg ∧
        m₁.reports = m.reports ++ [(c, bpType)] := by
  intro c m₁
  obtain ⟨-, harmed⟩ := (hcalm.inForce.armed _).mp hsw
  have hp : ProperEdit edit starts used c s := hP.proper s hs c .breakpoint
  have hs' : s.callback edit c ∈ P := hP.callback s hs c .breakpoint
  have hwell' := hP.behaved _ hs'
  let e := edit c s.memory s.cpu
  let d := (m.behindInt3 tid).dbg
  let d' := d.edit tid (ahead e)
  let ev : ExceptionEvent b := ⟨EXCEPTION_BREAKPOINT, s.cpu.Ip, tid, 0, 0⟩
  have hm₁ : m₁ = ⟨d'.handleException (answering ans) ev, e.cpu.data⟩ :=
    h.reportEditing_breakpoint harmed hp
  have hsame : SameHardware m.dbg d := sameHardware_withControl m.dbg tid _ _ _
  have hintact : d.Intact tid starts s.memory none :=
    h.intact.of_same hsame rfl rfl h.intact.pending
  have hintact' : d'.Intact tid starts (s.callback edit c).memory none :=
    hintact.edit (e := ahead e) hp.writes
  have hcode : (s.callback edit c).memory s.cpu.Ip ≠ int3 := hwell'.int3 _ h.well.ip
  have hcalm₁ : Calm ans tid starts A d := by
    refine hcalm.of_same ⟨rfl, rfl, rfl, rfl, rfl, rfl, rfl⟩ (congrFun hsame.slots tid) rfl ?_
    simp only [d, Machine.behindInt3, Os.withControl, Os.context_withContext, Function.update_self]
    rfl
  have hcalm' : Calm ans tid starts A d' := hcalm₁.edit (e := ahead e) hp.writes hwell'.trapFlag
  have hlisted : s.cpu.Ip ∈ d'.breakpoints := h.intact.mem_of_armed (h.well.int3 _ h.well.ip) harmed
  have hhit : Hit d' (d'.handleException (answering ans) ev) tid s.cpu.Ip d'.os.handles.next
      (d'.hitAnswer ans ev) := hit_handleException hintact'.only.reliable rfl hlisted
  have hctx := context_edit tid (ahead e) d
  rw [hm₁]
  refine ⟨⟨hintact'.handleException rfl h.well.ip hcode, ?_, hP.iterate hs'⟩, ?_⟩
  · refine cpu_of_edit ?_ ?_ hwell'.trapFlag
    · rw [hhit.ip, hctx]
      exact BitVec.add_sub_cancel _ _
    · rw [hhit.userFlags, hctx]
      rfl
  · obtain ⟨bpType, A', rfl, hout, -, htrace⟩ :=
      hcalm'.breakpoint (e := ev) hintact' hA rfl rfl hsw hcode
    obtain ⟨hforce, -⟩ := hcalm'.inForce_hit (e := ev) hintact' hA rfl rfl hsw hcode
    refine ⟨bpType, hout, hforce, ?_⟩
    simp only [Machine.reports, htrace, List.map_append, List.map_cons, List.map_nil]
    rfl

theorem Related.hardware_edited (h : Related exec starts tid m s)
    (hP : Program exec edit starts used P) (hs : s ∈ P) (hcalm : Calm ans tid starts A m.dbg)
    (hA : A.Distinct) {i : Fin 4} (hhw : A.hw i = some s.cpu.Ip) :
    let c : Call b := .onHardwareBreakpoint s.cpu.Ip 0 (.ofSlot i)
    let m₁ := m.reportEditing edit ans tid EXCEPTION_SINGLE_STEP s.cpu.Ip
    Related exec starts tid m₁ (s.callback edit c) ∧
      ∃ bpType, (Calm ans tid starts (if bpType = .RESTORE then A else A.put i none) m₁.dbg ∨
          Awaiting tid starts (if bpType = .RESTORE then A else A.put i none) m₁.dbg) ∧
        InForce tid starts (A.put i none) m₁.dbg ∧ m₁.reports = m.reports ++ [(c, bpType)] := by
  intro c m₁
  have hp : ProperEdit edit starts used c s := hP.proper s hs c (.hardware i)
  have hs' : s.callback edit c ∈ P := hP.callback s hs c (.hardware i)
  have hwell' := hP.behaved _ hs'
  let e := edit c s.memory s.cpu
  let d' := m.dbg.edit tid e
  let ev : ExceptionEvent b := ⟨EXCEPTION_SINGLE_STEP, s.cpu.Ip, tid, 0, 0⟩
  have hm₁ : m₁ = ⟨d'.handleException (answering ans) ev, e.cpu.data⟩ :=
    h.reportEditing_hardware hcalm hA hhw hp
  have hintact' : d'.Intact tid starts (s.callback edit c).memory none := h.intact.edit hp.writes
  have hcalm' : Calm ans tid starts A d' := hcalm.edit hp.writes hwell'.trapFlag
  have hne : EXCEPTION_SINGLE_STEP ≠ EXCEPTION_BREAKPOINT := by decide
  have hkeeps : KeepsTraps d' (d'.handleException (answering ans) ev) :=
    keepsTraps_handleException hne
  have hctx := context_edit tid e m.dbg
  rw [hm₁]
  refine ⟨⟨hintact'.handleException rfl h.well.ip (hwell'.int3 _ h.well.ip), ?_, hP.iterate hs'⟩, ?_⟩
  · refine cpu_of_edit ?_ ?_ hwell'.trapFlag
    · rw [hkeeps.ip, hctx]
    · rw [hkeeps.userFlags, hctx]
      rfl
  · obtain ⟨bpType, A', rfl, hout, hforce, htrace⟩ :=
      hcalm'.inForce_hardware (e := ev) hintact' hA rfl rfl hhw
    refine ⟨bpType, hout, hforce, ?_⟩
    simp only [Machine.reports, htrace, List.map_append, List.map_cons, List.map_nil]
    rfl

/-! ## The instruction behind a report -/

theorem Debugger.InForce.free {A₀ : Arms b} {d : Debugger b} (h : InForce tid starts A₀ d)
    {a : LPVOID b} (ha : a ∈ starts) (hno : ¬ A₀.Uses a) : Free tid a d := by
  refine ⟨fun harmed => hno (Or.inl ((h.armed a).mpr ⟨ha, harmed⟩)), fun i x hx heq => ?_⟩
  rw [h.slots] at hx
  exact hno (Or.inr ⟨i, heq ▸ (Arms.slots_eq_some hx).1⟩)

theorem arrive_silent_step {d : Debugger b} {A₀ : Arms b} {ref : LPVOID b → BYTE}
    (hr : Restores tid starts A₀ d) (hi : d.Intact tid starts ref none)
    (hstep : d.stepping = true) (hsilent : d.lastBpType ≠ BreakpointAction.SINGLE_STEP.toInt)
    (a : LPVOID b) : (d.arrive (.EXCEPTION ⟨EXCEPTION_SINGLE_STEP, a, tid, 0, 0⟩)).2 = none := by
  have hne : EXCEPTION_SINGLE_STEP ≠ EXCEPTION_BREAKPOINT := by decide
  have hr₁ : Restores tid starts A₀ (d.opened tid) :=
    hr.of_same (fun _ _ => Iff.rfl) rfl rfl rfl rfl rfl rfl
  obtain ⟨-, -, -, hlast, -⟩ := hr₁.restorePending hi.opened
  have hnot : ¬ (d.opened tid).restorePending.lastBpType = BreakpointAction.SINGLE_STEP.toInt := by
    rw [hlast]
    exact hsilent
  have hstep₁ : (d.opened tid).stepping = true := hstep
  rw [arrive_of_opened (hi.only.reliable _)]
  simp only [arriveException, if_neg hne, hstep₁, and_self, if_true, if_neg hnot]

theorem reportEditing_of_silent {code : DWORD} {a : LPVOID b}
    (h : (m.dbg.arrive (.EXCEPTION ⟨code, a, tid, 0, 0⟩)).2 = none) :
    m.reportEditing edit ans tid code a = m.report (answering ans) tid code a := by
  have he := congrArg Prod.fst
    (handleEvent_eq (Machine.editing edit ans tid m.data) (.EXCEPTION ⟨code, a, tid, 0, 0⟩) m.dbg)
  have he' := congrArg Prod.fst
    (handleEvent_eq (answering ans) (.EXCEPTION ⟨code, a, tid, 0, 0⟩) m.dbg)
  simp only [h] at he he'
  simp only [Machine.reportEditing, h, Machine.report]
  exact congrArg (Machine.mk · m.data) (he.trans he'.symm)

end Report

/-! ## The calls that make such changes -/

section Calls

variable {m : Machine b (Integers b)} {h : HANDLE} {tid : DWORD}

def Machine.fullOs (m : Machine b (Integers b)) : FullOs b := ⟨m.dbg.os, fun _ => m.data⟩

def FullContext.effect (ctx : FullContext b) : Effect b (Integers b) :=
  ⟨⟨ctx.control.Ip, ctx.control.EFlags, ctx.integers⟩, []⟩

theorem changeable_of_reliable {os : Os b} (hr : os.Reliable)
    (hl : os.handles.lookup h = some tid) : FullOs.changeable os h = some tid := by
  simp only [FullOs.changeable, FullOs.readable, hl, Option.filter_some, hr _, Bool.not_false,
    if_true]

theorem setRegister_edited (hr : m.dbg.os.Reliable) (hl : m.dbg.os.handles.lookup h = some tid)
    (reg : Register b) (value : DWORD_PTR b) :
    let ctx := (m.fullOs.full tid).set reg value
    let s := m.fullOs.setRegister h reg value
    s.os = m.dbg.os.edit tid ctx.effect ∧ s.integers tid = ctx.integers := by
  intro ctx s
  have hs : s = m.fullOs.withFull tid ctx := by
    simp only [s, FullOs.setRegister_spec, changeable_of_reliable hr hl, Machine.fullOs, ctx]
  have hset : ctx.control = { m.dbg.os.context tid with Ip := ctx.control.Ip } :=
    FullContext.set_control (m.fullOs.full tid) reg value
  have hflags : ctx.control.EFlags = (m.dbg.os.context tid).EFlags := by rw [hset]
  rw [hs]
  refine ⟨?_, Function.update_self _ _ _⟩
  simp only [FullOs.withFull, Os.edit, Os.withControl, FullContext.effect, hflags]
  rw [hset]
  rfl

/-- The suspension around the change cancels out. -/
theorem setFlag_edited (hr : m.dbg.os.Reliable) (hl : m.dbg.os.handles.lookup h = some tid)
    (flag : Flags) (enabled : Bool) :
    let ctx := FullOs.withFlag (m.fullOs.full tid) flag enabled
    let s := m.fullOs.setFlag h flag enabled
    s.os = m.dbg.os.edit tid ctx.effect ∧ s.integers tid = ctx.integers := by
  intro ctx s
  simp only [s, FullOs.setFlag, Machine.fullOs, FullOs.suspendThread, Os.suspendThread, hl, hr _,
    Bool.false_eq_true, if_false, Option.getD_some, FullOs.getThreadContext, Os.withThread,
    FullOs.setThreadContext, FullOs.resumeThread, Os.resumeThread, Os.withContext, FullOs.full,
    Os.context, Function.update_self, Function.update_idem, Nat.add_sub_cancel]
  exact ⟨rfl, rfl⟩

def bytesAt (a : LPVOID b) : List BYTE → List (LPVOID b × BYTE)
  | [] => []
  | x :: xs => (a, x) :: bytesAt (a + 1) xs

theorem storeAll_eq_foldl (who : Writer) (a : LPVOID b) (xs : List BYTE) (mem : Memory b) :
    Memory.storeAll who a xs mem =
      (bytesAt a xs).foldl (fun mem w => mem.store who w.1 w.2) mem := by
  induction xs generalizing a mem with
  | nil => rfl
  | cons x xs ih => exact ih (a + 1) (mem.store who a x)

theorem writeMemory_edited {d : Debugger b} (hacc : d.os.memory.Accessible) (tid : DWORD) (data : σ)
    (a : LPVOID b) (buffer : List BYTE) :
    d.writeMemory a buffer = (d.edit tid ⟨⟨(d.os.context tid).Ip, (d.os.context tid).EFlags, data⟩,
      bytesAt a buffer⟩, true) := by
  let mem := (bytesAt a buffer).foldl (fun mem w => mem.store .writeMemory w.1 w.2) d.os.memory
  have hthread : d.os.thread = Function.update d.os.thread tid
      { d.os.thread tid with context := d.os.context tid } :=
    (Function.update_eq_self tid d.os.thread).symm
  simp only [writeMemory, hacc.writeProcessMemory, storeAll_eq_foldl, Debugger.edit, Os.edit,
    Os.withControl, Os.withContext, Os.withThread]
  exact congrArg (fun thread =>
    (({ d with os := { d.os with memory := mem, thread := thread } } : Debugger b), true)) hthread

end Calls
end RoboDbg
