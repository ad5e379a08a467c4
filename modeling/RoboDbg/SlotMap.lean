import RoboDbg.HardwareBreakpoints

/-!
# The debug registers refine a map of slots

Abstractly a set writes one entry of a map from threads and slots to watched
ranges, and a clear removes one. The registers of every thread, read back by
`getHardwareBreakpoints`, list exactly that map after any sequence of calls.
-/

namespace RoboDbg

variable {b : Build}

abbrev SlotMap (b : Build) := DWORD → Fin 4 → Option (Slot b)

inductive SlotOp (b : Build)
  | set (bp : HwBp b)
  | clear (hThread : HANDLE) (reg : DRReg)

def DRReg.slot? : DRReg → Option (Fin 4)
  | .NOP => none
  | .DR0 => some 0
  | .DR1 => some 1
  | .DR2 => some 2
  | .DR3 => some 3

@[simp] theorem DRReg.slot?_ofSlot (i : Fin 4) : (DRReg.ofSlot i).slot? = some i := by
  fin_cases i <;> rfl

/-- The checks that `setHardwareBreakpointOnThread` makes itself. -/
def HwBp.Accepted (bp : HwBp b) : Prop := bp.reg ≠ .NOP ∧ (bp.type = .EXECUTE → bp.len = .BYTE)

instance (bp : HwBp b) : Decidable bp.Accepted := inferInstanceAs (Decidable (_ ∧ _))

namespace SlotMap

def put (m : SlotMap b) (tid : DWORD) (i : Fin 4) (s : Option (Slot b)) : SlotMap b :=
  Function.update m tid (Function.update (m tid) i s)

/-- The map thread by thread and slot by slot, in the order of the thread list. -/
def listing (threads : List (Thread b)) (resolve : HANDLE → Option DWORD) (m : SlotMap b) :
    List (HwBp b) :=
  threads.flatMap (fun thread =>
    match resolve thread.hThread with
    | none => []
    | some tid =>
      (List.finRange 4).filterMap (fun i =>
        (m tid i).map (fun s => ⟨thread.hThread, s.address, .ofSlot i, s.type, s.len⟩)))

end SlotMap

namespace SlotOp

def run (d : Debugger b) : SlotOp b → Debugger b × Bool
  | set bp => d.setHardwareBreakpointOnThread bp
  | clear hThread reg => d.clearHardwareBreakpointOnThread hThread reg

def Rejected : SlotOp b → Prop
  | set bp => ¬ bp.Accepted
  | clear _ _ => False

instance (op : SlotOp b) : Decidable op.Rejected :=
  match op with
  | set bp => inferInstanceAs (Decidable (¬ bp.Accepted))
  | clear _ _ => .isFalse not_false

/-- The abstract effect, given what each handle denotes. -/
def apply (resolve : HANDLE → Option DWORD) (m : SlotMap b) : SlotOp b → SlotMap b
  | set bp =>
    match resolve bp.hThread, bp.reg.slot? with
    | some tid, some i =>
      if bp.Accepted then m.put tid i (some ⟨bp.address, bp.type, bp.len⟩) else m
    | _, _ => m
  | clear hThread reg =>
    match resolve hThread, reg.slot? with
    | some tid, some i => m.put tid i none
    | _, _ => m

end SlotOp

/-- Sequences of calls each of which succeeds or is rejected by its own checks. -/
inductive SlotRun : Debugger b → List (SlotOp b) → Debugger b → Prop
  | nil (d : Debugger b) : SlotRun d [] d
  | cons {d d' : Debugger b} {op : SlotOp b} {ops : List (SlotOp b)}
      (hop : (op.run d).2 = true ∨ op.Rejected) (hrun : SlotRun (op.run d).1 ops d') :
      SlotRun d (op :: ops) d'

namespace Debugger

def slots (d : Debugger b) : SlotMap b := fun tid => (d.os.context tid).slot

theorem slots_withContext (d : Debugger b) (tid : DWORD) (ctx : Context b) {i : Fin 4}
    {s : Option (Slot b)} (h : ctx.slot = Function.update (d.os.context tid).slot i s) :
    (fun u => ((d.os.withContext tid ctx).context u).slot) = d.slots.put tid i s := by
  funext u
  by_cases hu : u = tid
  · subst hu
    simp [SlotMap.put, h, slots]
  · simp [SlotMap.put, slots, Function.update_of_ne hu]

theorem rejected_eq {d : Debugger b} {bp : HwBp b} (h : ¬ bp.Accepted) :
    (d.setHardwareBreakpointOnThread bp).1 = d := by
  unfold setHardwareBreakpointOnThread
  split_ifs with hlen
  · rfl
  · have hreg : bp.reg = .NOP := by
      by_contra hne
      refine h ⟨hne, fun htype => ?_⟩
      by_contra hbyte
      exact hlen ⟨htype, hbyte⟩
    cases d.os.getThreadContext .DEBUG_REGISTERS bp.hThread with
    | none => rfl
    | some ctx => simp only [Context.assign, Context.withDr, hreg, Option.map_none]

/-- One call: the slots follow the abstract operation, and what the readers
depend on besides stays as it is. -/
theorem run_refines {d : Debugger b} {op : SlotOp b}
    (h : (op.run d).2 = true ∨ op.Rejected) :
    (op.run d).1.slots = op.apply d.os.handles.lookup d.slots ∧
      (op.run d).1.os.handles = d.os.handles ∧ (op.run d).1.os.fails = d.os.fails ∧
      (op.run d).1.threads = d.threads := by
  cases op with
  | set bp =>
    rcases h with h | h
    · obtain ⟨tid, ctx, hl, hassign, hlen, he⟩ := setHardwareBreakpointOnThread_true h
      have hreg : bp.reg ≠ .NOP := by
        intro hreg
        simp [Context.assign, Context.withDr, hreg] at hassign
      obtain ⟨i, hi⟩ := DRReg.eq_ofSlot hreg
      have hslots := slots_withContext d tid ctx (Context.slot_assign hi hassign)
      rw [SlotOp.run, he]
      refine ⟨?_, rfl, rfl, rfl⟩
      simp only [SlotOp.apply, hl, hi, DRReg.slot?_ofSlot]
      rw [if_pos ⟨hreg, hlen⟩]
      exact hslots
    · have hnot : ¬ bp.Accepted := h
      rw [SlotOp.run, rejected_eq hnot]
      refine ⟨?_, rfl, rfl, rfl⟩
      simp only [SlotOp.apply, if_neg hnot]
      split <;> rfl
  | clear hThread reg =>
    rcases h with h | h
    · obtain ⟨tid, i, tracked, hl, rfl, he⟩ := clearHardwareBreakpointOnThread_eq h
      have hslots := slots_withContext d tid _ (Context.slot_release (d.os.context tid) i)
      rw [SlotOp.run, he]
      refine ⟨?_, rfl, rfl, rfl⟩
      simp only [SlotOp.apply, hl, DRReg.slot?_ofSlot]
      exact hslots
    · exact h.elim

def ContextsReadable (d : Debugger b) : Prop :=
  ∀ thread ∈ d.threads, ∀ tid, d.os.handles.lookup thread.hThread = some tid →
    d.os.fails (.getThreadContext tid) = false

theorem getHardwareBreakpoints_eq {d : Debugger b} (hread : d.ContextsReadable) :
    d.getHardwareBreakpoints = d.slots.listing d.threads d.os.handles.lookup := by
  unfold getHardwareBreakpoints SlotMap.listing
  apply List.flatMap_congr
  intro thread hmem
  unfold Os.getThreadContext
  cases hl : d.os.handles.lookup thread.hThread with
  | none => rfl
  | some tid =>
    simp only [hread thread hmem tid hl, Bool.false_eq_true, if_false]
    rfl

end Debugger

/-- After any sequence of successful or rejected calls, in either build and from
any register contents, `getHardwareBreakpoints` lists the abstract map. -/
theorem getHardwareBreakpoints_refines {d d' : Debugger b} {ops : List (SlotOp b)}
    (hread : d.ContextsReadable) (hrun : SlotRun d ops d') :
    d'.getHardwareBreakpoints =
      (ops.foldl (SlotOp.apply d.os.handles.lookup) d.slots).listing d.threads
        d.os.handles.lookup := by
  induction hrun with
  | nil d => exact Debugger.getHardwareBreakpoints_eq hread
  | cons hop _ ih =>
    obtain ⟨hslots, hhandles, hfails, hthreads⟩ := Debugger.run_refines hop
    unfold Debugger.ContextsReadable at ih
    rw [hfails, hhandles, hslots, hthreads] at ih
    exact ih hread

theorem getHardwareBreakpoints_refines_two_threads :
    let d : Debugger .x64 := (Debugger.new (.ofCode (fun _ => 0x90) [7, 8])).actualizeThreadList
    let ops : List (SlotOp .x64) := [.set ⟨1, 0x1000, .DR3, .WRITE, .DWORD⟩,
      .set ⟨2, 0x2000, .DR0, .EXECUTE, .BYTE⟩, .set ⟨2, 0x2000, .DR1, .EXECUTE, .WORD⟩,
      .clear 1 .DR3, .set ⟨1, 0x3000, .DR3, .READWRITE, .QWORD⟩]
    (ops.foldl (fun d op => (op.run d).1) d).getHardwareBreakpoints =
      (ops.foldl (SlotOp.apply d.os.handles.lookup) d.slots).listing d.threads
        d.os.handles.lookup :=
  getHardwareBreakpoints_refines (fun _ _ _ _ => rfl)
    (.cons (.inl (by decide)) (.cons (.inl (by decide)) (.cons (.inr (by decide))
      (.cons (.inl (by decide)) (.cons (.inl (by decide)) (.nil _))))))

end RoboDbg
