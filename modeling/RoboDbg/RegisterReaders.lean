import RoboDbg.ProcessBreakpoints

/-!
# The three readers of the debug registers

`getHardwareBreakpoints` lists every enabled slot of every thread. The two readers of
the event loop stop at the first match, and what they return is what a search of that
list returns, for any contents of the registers and any threads that cannot be read.
-/

namespace RoboDbg

variable {b : Build}

namespace Context

variable (ctx : Context b) (hThread : HANDLE)

def record (i : Fin 4) : Option (HwBp b) :=
  (ctx.slot i).map (fun s => ⟨hThread, s.address, .ofSlot i, s.type, s.len⟩)

def records : List (HwBp b) := (List.finRange 4).filterMap (ctx.record hThread)

theorem find?_reg_records (i : Fin 4) :
    (ctx.records hThread).find? (fun bp => bp.reg = .ofSlot i) = ctx.record hThread i := by
  have hinj : ∀ j, DRReg.ofSlot j = .ofSlot i ↔ j = i := by
    revert i
    decide
  have hself : (List.finRange 4).find? (fun j => j = i) = some i := by
    revert i
    decide
  rw [records, List.find?_filterMap]
  cases hs : ctx.slot i with
  | none =>
    have hnone : ∀ j ∈ List.finRange 4,
        ¬ (ctx.record hThread j).any (fun bp => bp.reg = .ofSlot i) = true := by
      intro j _
      by_cases hj : j = i
      · simp [record, hj, hs]
      · cases hsj : ctx.slot j <;> simp [record, hsj, hinj, hj]
    rw [List.find?_eq_none.mpr hnone, record, hs]
    rfl
  | some s =>
    have hp : (fun j => (ctx.record hThread j).any (fun bp => bp.reg = .ofSlot i)) =
        fun j => decide (j = i) := by
      funext j
      by_cases hj : j = i
      · simp [record, hj, hs]
      · cases hsj : ctx.slot j <;> simp [record, hsj, hinj, hj]
    rw [hp, hself]
    rfl

def Watches (a : LPVOID b) (i : Fin 4) : Prop := ctx.enabled i = true ∧ ctx.dr i = a

instance (a : LPVOID b) : DecidablePred (ctx.Watches a) :=
  fun _ => inferInstanceAs (Decidable (_ ∧ _))

theorem reg_find?_address_records (a : LPVOID b) :
    ((ctx.records hThread).find? (fun bp => bp.address = a)).map (·.reg) =
      ((List.finRange 4).find? (ctx.Watches a)).map .ofSlot := by
  have hp : (fun j => (ctx.record hThread j).any (fun bp => bp.address = a)) =
      fun j => decide (ctx.Watches a j) := by
    funext j
    by_cases hen : ctx.enabled j = true <;> simp [record, slot, hen, Watches]
  have hreg : ∀ j, ctx.Watches a j → (ctx.record hThread j).map (·.reg) = some (.ofSlot j) := by
    rintro j ⟨hen, -⟩
    simp [record, slot, hen]
  rw [records, List.find?_filterMap, hp]
  cases hj : (List.finRange 4).find? (ctx.Watches a) with
  | none => rfl
  | some j =>
    have hw : ctx.Watches a j := by simpa using List.find?_some hj
    exact hreg j hw

theorem firstOf_eq {p : Fin 4 → Prop} [DecidablePred p] (reg : DRReg) :
    (if p 0 then .DR0 else if p 1 then .DR1 else if p 2 then .DR2 else if p 3 then .DR3 else reg) =
      (((List.finRange 4).find? p).map DRReg.ofSlot).getD reg := by
  have hfour : List.finRange 4 = [0, 1, 2, 3] := by decide
  rw [hfour]
  by_cases h0 : p 0
  · simp [h0, DRReg.ofSlot]
  · by_cases h1 : p 1
    · simp [h0, h1, DRReg.ofSlot]
    · by_cases h2 : p 2
      · simp [h0, h1, h2, DRReg.ofSlot]
      · by_cases h3 : p 3 <;> simp [h0, h1, h2, h3, DRReg.ofSlot]

end Context

namespace Debugger

theorem getBreakpointByRegIn_eq (os : Os b) (i : Fin 4) (threads : List (Thread b)) :
    getBreakpointByRegIn os (.ofSlot i) threads =
      ((threads.flatMap (fun thread =>
        match os.getThreadContext .DEBUG_REGISTERS thread.hThread with
        | none => []
        | some ctx => ctx.records thread.hThread)).find? (fun bp => bp.reg = .ofSlot i)).getD
          .empty := by
  induction threads with
  | nil => rfl
  | cons thread threads ih =>
    rw [getBreakpointByRegIn, List.flatMap_cons, List.find?_append]
    cases hctx : os.getThreadContext .DEBUG_REGISTERS thread.hThread with
    | none => exact ih
    | some ctx =>
      simp only [ctx.find?_reg_records, DRReg.toInt_ofSlot]
      by_cases hen : ctx.enabled i = true
      · have hdr : ctx.drOf (.ofSlot i) = ctx.dr i := by fin_cases i <;> rfl
        rw [if_neg (DRReg.ofSlot_ne_NOP i), if_pos (of_decide_eq_true hen), Context.record,
          Context.slot, if_pos hen, hdr]
        rfl
      · rw [if_neg (fun h => hen (decide_eq_true h)), Context.record, Context.slot, if_neg hen, ih]
        rfl

theorem isHardwareBreakpointIn_eq (os : Os b) (a : LPVOID b) (threads : List (Thread b)) :
    isHardwareBreakpointIn os a threads =
      (((threads.flatMap (fun thread =>
        match os.getThreadContext .DEBUG_REGISTERS thread.hThread with
        | none => []
        | some ctx => ctx.records thread.hThread)).find? (fun bp => bp.address = a)).map
          (·.reg)).getD .NOP := by
  induction threads with
  | nil => rfl
  | cons thread threads ih =>
    rw [isHardwareBreakpointIn, List.flatMap_cons, List.find?_append]
    cases hctx : os.getThreadContext .DEBUG_REGISTERS thread.hThread with
    | none => exact ih
    | some ctx =>
      obtain ⟨h0, h1, h2, h3⟩ := enable_masks ctx
      have hfirst := Context.firstOf_eq (p := ctx.Watches a) (isHardwareBreakpointIn os a threads)
      rw [← ctx.reg_find?_address_records thread.hThread] at hfirst
      simp only [h0, h1, h2, h3]
      refine hfirst.trans ?_
      rw [ih]
      cases (ctx.records thread.hThread).find? (fun bp => bp.address = a) <;> rfl

end Debugger

/-- Whatever the registers hold and whichever threads cannot be read, the readers of
the event loop return what a search of the full list returns. -/
theorem readers_agree (d : Debugger b) :
    (∀ i : Fin 4, d.getBreakpointByReg (.ofSlot i) =
      (d.getHardwareBreakpoints.find? (fun bp => bp.reg = .ofSlot i)).getD .empty) ∧
    ∀ a : LPVOID b, d.isHardwareBreakpointAt a =
      ((d.getHardwareBreakpoints.find? (fun bp => bp.address = a)).map (·.reg)).getD .NOP := by
  constructor
  · intro i
    exact Debugger.getBreakpointByRegIn_eq d.os i d.threads
  · intro a
    exact Debugger.isHardwareBreakpointIn_eq d.os a d.threads

end RoboDbg
