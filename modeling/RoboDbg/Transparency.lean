import RoboDbg.InForce
import RoboDbg.Simulation

/-!
# Transparency of breakpoints

The program under the debugger runs as it does alone: every step either carries
out its next instruction or only reports. As long as no answer is taken for a
completed step, every instruction is reached, and each breakpoint in force at an
instruction is reported once before it.
-/

namespace RoboDbg

open Stutter Runs Debugger

variable {b : Build} {σ : Type*}

/-- A call without its handle, whose value is up to the system. -/
def Call.anonymous : Call b → Call b
  | .onBreakpoint a _ => .onBreakpoint a 0
  | .onHardwareBreakpoint a _ reg => .onHardwareBreakpoint a 0 reg
  | c => c

def Machine.reports (m : Machine b σ) : List (Call b × BreakpointAction) :=
  m.dbg.trace.map (fun c => (c.1.anonymous, c.2))

/-- The bare machine together with the breakpoints that ought to be in force. -/
structure Watched (b : Build) (σ : Type*) where
  bare : Bare b σ
  arms : Arms b

/-- One instruction. A breakpoint in force at it is reported first, and an answer
other than `RESTORE` puts it out of force. -/
inductive Watched.Step (exec : Exec b σ) :
    Watched b σ → Option (Call b × BreakpointAction) → Watched b σ → Prop
  | quiet {w : Watched b σ} (hsw : w.bare.cpu.Ip ∉ w.arms.sw)
      (hhw : ∀ i, w.arms.hw i ≠ some w.bare.cpu.Ip) :
      Step exec w none ⟨w.bare.next exec, w.arms⟩
  | breakpoint {w : Watched b σ} (hsw : w.bare.cpu.Ip ∈ w.arms.sw) (bpType : BreakpointAction) :
      Step exec w (some (.onBreakpoint w.bare.cpu.Ip 0, bpType))
        ⟨w.bare.next exec,
          if bpType = .RESTORE then w.arms else w.arms.disarm w.bare.cpu.Ip⟩
  | hardware {w : Watched b σ} {i : Fin 4} (hhw : w.arms.hw i = some w.bare.cpu.Ip)
      (bpType : BreakpointAction) :
      Step exec w (some (.onHardwareBreakpoint w.bare.cpu.Ip 0 (.ofSlot i), bpType))
        ⟨w.bare.next exec, if bpType = .RESTORE then w.arms else w.arms.put i none⟩

theorem Watched.Step.bare_eq {exec : Exec b σ} {w w' : Watched b σ}
    {r : Option (Call b × BreakpointAction)} (h : Step exec w r w') :
    w'.bare = w.bare.next exec := by
  cases h <;> rfl

theorem Watched.run_bare {exec : Exec b σ} {w w' : Watched b σ}
    {rs : List (Option (Call b × BreakpointAction))} (h : Run (Watched.Step exec) w rs w') :
    w'.bare = (Bare.next exec)^[rs.length] w.bare := by
  induction h with
  | nil w => rfl
  | cons hstep _ ih => rw [ih, hstep.bare_eq, List.length_cons, Function.iterate_succ_apply]

/-! ## One instruction of the thread -/

variable {exec : Exec b σ} {starts : Set (LPVOID b)} {tid : DWORD} {m : Machine b σ} {s : Bare b σ}
  {ans : Call b → Debugger b → BreakpointAction} {A : Arms b}

def Machine.performed (exec : Exec b σ) (tid : DWORD) (m : Machine b σ) (s : Bare b σ) :
    Machine b σ :=
  ⟨{ m.dbg with os := m.dbg.os.perform tid (exec s.memory s.cpu) }, (exec s.memory s.cpu).cpu.data⟩

namespace Related

theorem performed_armed (h : Related exec starts tid m s) {a : LPVOID b} (ha : a ∈ starts) :
    (m.performed exec tid s).dbg.Armed a ↔ m.dbg.Armed a := by
  have hbytes : (m.performed exec tid s).dbg.os.memory.bytes a = m.dbg.os.memory.bytes a := by
    have hne : ∀ w ∈ (exec s.memory s.cpu).writes, w.1 ≠ a := by
      rintro w hw rfl
      exact h.well.writes w hw ha
    refine (congrFun (foldl_store_bytes .debuggee _ m.dbg.os.memory) a).trans ?_
    exact writeAll_of_not_mem hne
  rw [Armed, Armed, hbytes]

theorem performed_trapFlag (h : Related exec starts tid m s) :
    ((m.performed exec tid s).dbg.os.context tid).trapFlag = false := by
  simp only [Machine.performed, Os.perform, Os.withControl, Os.context_withContext,
    Function.update_self]
  exact h.next_well.trapFlag

theorem performed_slots (m : Machine b σ) (s : Bare b σ) :
    (m.performed exec tid s).dbg.slots = m.dbg.slots :=
  (sameHardware_withControl m.dbg tid _ _ _).slots

/-- Where nothing is in the way, the step is the instruction, and a report of it
if the trap flag is set. -/
theorem step_eq (h : Related exec starts tid m s) (hf : Free tid s.cpu.Ip m.dbg)
    {cb : Callbacks b} :
    m.step exec cb tid =
      if (m.dbg.os.context tid).trapFlag then
        (m.performed exec tid s).report cb tid EXCEPTION_SINGLE_STEP (s.next exec).cpu.Ip
      else m.performed exec tid s := by
  have hfaults : ¬ (m.dbg.os.context tid).Faults := by
    rintro ⟨i, x, hx, -, haddr⟩
    exact hf.slots i x hx (haddr.trans h.ip)
  have harmed : ¬ m.dbg.Armed (m.dbg.os.context tid).Ip := by
    rw [h.ip]
    exact hf.armed
  rw [Machine.step_of_free hfaults harmed, h.exec_eq hf.armed]
  rfl

theorem step_calm (h : Related exec starts tid m s) (hc : Calm ans tid starts A m.dbg)
    (hf : Free tid s.cpu.Ip m.dbg) :
    Related exec starts tid (m.step exec (answering ans) tid) (s.next exec) ∧
      Calm ans tid starts A (m.step exec (answering ans) tid).dbg ∧
      (m.step exec (answering ans) tid).reports = m.reports := by
  rw [h.step_eq hf, hc.trapFlag]
  refine ⟨h.perform, ⟨hc.stepping, hc.notNeeded, hc.notWaiting, hc.silent, h.performed_trapFlag,
    ?_⟩, rfl⟩
  exact hc.inForce.of_same (fun a ha => h.performed_armed ha)
    (congrFun (performed_slots m s) tid) rfl

theorem step_awaiting (h : Related exec starts tid m s) (hw : Awaiting tid starts A m.dbg)
    (hf : Free tid s.cpu.Ip m.dbg) :
    Related exec starts tid (m.step exec (answering ans) tid) (s.next exec) ∧
      Calm ans tid starts A (m.step exec (answering ans) tid).dbg ∧
      (m.step exec (answering ans) tid).reports = m.reports := by
  have hp : Related exec starts tid (m.performed exec tid s) (s.next exec) := h.perform
  have hr : Restores tid starts A (m.performed exec tid s).dbg :=
    hw.restores.of_same (fun a ha => h.performed_armed ha) (congrFun (performed_slots m s) tid)
      rfl rfl rfl rfl rfl
  let e : ExceptionEvent b := ⟨EXCEPTION_SINGLE_STEP, (s.next exec).cpu.Ip, tid, 0, 0⟩
  obtain ⟨hcalm, htrace⟩ : Calm ans tid starts A
      ((m.performed exec tid s).dbg.handleException (answering ans) e) ∧ _ :=
    hr.handleException hp.intact hw.stepping hw.silent h.performed_trapFlag rfl rfl
  rw [h.step_eq hf, hw.trapFlag]
  exact ⟨hp.report, hcalm, congrArg (List.map _) htrace⟩

end Related

/-! ## Every instruction is reached -/

/-- Between two instructions: the machines are related and the breakpoints that
ought to be in force are. -/
structure Tracking (exec : Exec b σ) (starts : Set (LPVOID b)) (tid : DWORD)
    (ans : Call b → Debugger b → BreakpointAction) (m : Machine b σ) (w : Watched b σ) : Prop where
  related : Related exec starts tid m w.bare
  calm : Calm ans tid starts w.arms m.dbg
  distinct : w.arms.Distinct

theorem Tracking.after_report {m₁ : Machine b σ} (h : Related exec starts tid m₁ s)
    (hout : Calm ans tid starts A m₁.dbg ∨ Awaiting tid starts A m₁.dbg)
    (hf : Free tid s.cpu.Ip m₁.dbg) (hA : A.Distinct) :
    Tracking exec starts tid ans (m₁.step exec (answering ans) tid) ⟨s.next exec, A⟩ ∧
      (m₁.step exec (answering ans) tid).reports = m₁.reports := by
  rcases hout with hc | hw
  · obtain ⟨hrel, hcalm, hrep⟩ := h.step_calm hc hf
    exact ⟨⟨hrel, hcalm, hA⟩, hrep⟩
  · obtain ⟨hrel, hcalm, hrep⟩ : _ ∧ Calm ans tid starts A _ ∧ _ := h.step_awaiting hw hf
    exact ⟨⟨hrel, hcalm, hA⟩, hrep⟩

theorem Tracking.of_report {m₁ : Machine b σ} (hstep : m.step exec (answering ans) tid = m₁)
    (h : Related exec starts tid m₁ s)
    (hout : Calm ans tid starts A m₁.dbg ∨ Awaiting tid starts A m₁.dbg)
    (hf : Free tid s.cpu.Ip m₁.dbg) (hA : A.Distinct) {c : Call b} {bpType : BreakpointAction}
    (htrace : m₁.dbg.trace = m.dbg.trace ++ [(c, bpType)]) :
    Tracking exec starts tid ans ((Machine.step exec (answering ans) tid)^[2] m) ⟨s.next exec, A⟩ ∧
      ((Machine.step exec (answering ans) tid)^[2] m).reports =
        m.reports ++ [(c.anonymous, bpType)] := by
  obtain ⟨htrack, hrep⟩ := Tracking.after_report h hout hf hA
  have hrep₁ : m₁.reports = m.reports ++ [(c.anonymous, bpType)] := by
    simp only [Machine.reports, htrace, List.map_append, List.map_cons, List.map_nil]
  rw [Function.iterate_succ_apply, Function.iterate_one, hstep]
  exact ⟨htrack, hrep.trans hrep₁⟩

theorem Tracking.faults {w : Watched b σ} (h : Tracking exec starts tid ans m w) {i : Fin 4}
    (hhw : w.arms.hw i = some w.bare.cpu.Ip) : (m.dbg.os.context tid).Faults := by
  have hslot : m.dbg.slots tid i = some ⟨w.bare.cpu.Ip, .EXECUTE, .BYTE⟩ := by
    rw [h.calm.inForce.slots, Arms.slots, hhw]
    rfl
  exact ⟨i, _, hslot, rfl, h.related.ip.symm⟩

theorem Tracking.hardware_report {w : Watched b σ} (h : Tracking exec starts tid ans m w) {i : Fin 4}
    (hhw : w.arms.hw i = some w.bare.cpu.Ip) :
    ∃ bpType A', A' = (if bpType = .RESTORE then w.arms else w.arms.put i none) ∧ A'.Distinct ∧
      m.step exec (answering ans) tid =
        m.report (answering ans) tid EXCEPTION_SINGLE_STEP w.bare.cpu.Ip ∧
      Related exec starts tid (m.step exec (answering ans) tid) w.bare ∧
      (Calm ans tid starts A' (m.step exec (answering ans) tid).dbg ∨
        Awaiting tid starts A' (m.step exec (answering ans) tid).dbg) ∧
      Free tid w.bare.cpu.Ip (m.step exec (answering ans) tid).dbg ∧
      (m.step exec (answering ans) tid).dbg.trace = m.dbg.trace ++
        [(.onHardwareBreakpoint w.bare.cpu.Ip m.dbg.os.handles.next (.ofSlot i), bpType)] := by
  have hfaults := h.faults hhw
  obtain ⟨hrel, hcalm, hA⟩ := h
  have hstep : m.step exec (answering ans) tid =
      m.report (answering ans) tid EXCEPTION_SINGLE_STEP w.bare.cpu.Ip := by
    rw [Machine.step_of_faults hfaults, hrel.ip]
  let e : ExceptionEvent b := ⟨EXCEPTION_SINGLE_STEP, w.bare.cpu.Ip, tid, 0, 0⟩
  have hhw' : w.arms.hw i = some e.ExceptionAddress := hhw
  obtain ⟨bpType, A', hA', hout, hfree, htrace⟩ :=
    hcalm.hardware hrel.intact hA rfl rfl hhw' hrel.well.ip
  have hdistinct : A'.Distinct := by
    rw [hA']
    split_ifs
    · exact hA
    · exact hA.put_none i
  rw [hstep]
  exact ⟨bpType, A', hA', hdistinct, rfl, hrel.report, hout, hfree, htrace⟩

theorem Tracking.hardware {w : Watched b σ} (h : Tracking exec starts tid ans m w) {i : Fin 4}
    (hhw : w.arms.hw i = some w.bare.cpu.Ip) :
    ∃ bpType w', Watched.Step exec w
        (some (.onHardwareBreakpoint w.bare.cpu.Ip 0 (.ofSlot i), bpType)) w' ∧
      Tracking exec starts tid ans ((Machine.step exec (answering ans) tid)^[2] m) w' ∧
      ((Machine.step exec (answering ans) tid)^[2] m).reports =
        m.reports ++ [(.onHardwareBreakpoint w.bare.cpu.Ip 0 (.ofSlot i), bpType)] := by
  obtain ⟨bpType, A', hA', hdistinct, -, hrel, hout, hfree, htrace⟩ := h.hardware_report hhw
  exact ⟨bpType, ⟨w.bare.next exec, A'⟩, hA' ▸ .hardware hhw bpType,
    Tracking.of_report rfl hrel hout hfree hdistinct htrace⟩

theorem Tracking.breakpoint_report {w : Watched b σ} (h : Tracking exec starts tid ans m w)
    (hsw : w.bare.cpu.Ip ∈ w.arms.sw) :
    ∃ bpType A', A' = (if bpType = .RESTORE then w.arms else w.arms.disarm w.bare.cpu.Ip) ∧
      A'.Distinct ∧
      m.step exec (answering ans) tid =
        (m.behindInt3 tid).report (answering ans) tid EXCEPTION_BREAKPOINT w.bare.cpu.Ip ∧
      Related exec starts tid (m.step exec (answering ans) tid) w.bare ∧
      (Calm ans tid starts A' (m.step exec (answering ans) tid).dbg ∨
        Awaiting tid starts A' (m.step exec (answering ans) tid).dbg) ∧
      Free tid w.bare.cpu.Ip (m.step exec (answering ans) tid).dbg ∧
      (m.step exec (answering ans) tid).dbg.trace = m.dbg.trace ++
        [(.onBreakpoint w.bare.cpu.Ip m.dbg.os.handles.next, bpType)] := by
  obtain ⟨hrel, hcalm, hA⟩ := h
  obtain ⟨hstart, harmed⟩ := (hcalm.inForce.armed _).mp hsw
  have hfaults : ¬ (m.dbg.os.context tid).Faults := by
    rintro ⟨i, x, hx, -, haddr⟩
    have hslot : m.dbg.slots tid i = some x := hx
    rw [hcalm.inForce.slots] at hslot
    have hhw := (Arms.slots_eq_some hslot).1
    rw [haddr, hrel.ip] at hhw
    exact hA.kinds i _ hhw hsw
  have hstep : m.step exec (answering ans) tid =
      (m.behindInt3 tid).report (answering ans) tid EXCEPTION_BREAKPOINT w.bare.cpu.Ip := by
    have harmed' : m.dbg.Armed (m.dbg.os.context tid).Ip := by
      rw [hrel.ip]
      exact harmed
    rw [Machine.step_of_armed hfaults harmed', hrel.ip]
  have hs : SameHardware m.dbg (m.behindInt3 tid).dbg := sameHardware_withControl m.dbg tid _ _ _
  have hcalm' : Calm ans tid starts w.arms (m.behindInt3 tid).dbg := by
    refine hcalm.of_same ⟨rfl, rfl, rfl, rfl, rfl, rfl, rfl⟩ (congrFun hs.slots tid) rfl ?_
    simp only [Machine.behindInt3, Os.withControl, Os.context_withContext, Function.update_self]
    rfl
  have hintact : (m.behindInt3 tid).dbg.Intact tid starts w.bare.memory none :=
    hrel.intact.of_same hs rfl rfl hrel.intact.pending
  let e : ExceptionEvent b := ⟨EXCEPTION_BREAKPOINT, w.bare.cpu.Ip, tid, 0, 0⟩
  have hsw' : e.ExceptionAddress ∈ w.arms.sw := hsw
  obtain ⟨bpType, A', hA', hout, hfree, htrace⟩ :=
    hcalm'.breakpoint hintact hA rfl rfl hsw' (hrel.well.int3 _ hrel.well.ip)
  have hdistinct : A'.Distinct := by
    rw [hA']
    split_ifs
    · exact hA
    · exact hA.disarm _
  rw [hstep]
  exact ⟨bpType, A', hA', hdistinct, rfl, hrel.breakpoint harmed, hout, hfree, htrace⟩

theorem Tracking.breakpoint {w : Watched b σ} (h : Tracking exec starts tid ans m w)
    (hsw : w.bare.cpu.Ip ∈ w.arms.sw) :
    ∃ bpType w', Watched.Step exec w (some (.onBreakpoint w.bare.cpu.Ip 0, bpType)) w' ∧
      Tracking exec starts tid ans ((Machine.step exec (answering ans) tid)^[2] m) w' ∧
      ((Machine.step exec (answering ans) tid)^[2] m).reports =
        m.reports ++ [(.onBreakpoint w.bare.cpu.Ip 0, bpType)] := by
  obtain ⟨bpType, A', hA', hdistinct, -, hrel, hout, hfree, htrace⟩ := h.breakpoint_report hsw
  exact ⟨bpType, ⟨w.bare.next exec, A'⟩, hA' ▸ .breakpoint hsw bpType,
    Tracking.of_report rfl hrel hout hfree hdistinct htrace⟩

theorem Tracking.free {w : Watched b σ} (h : Tracking exec starts tid ans m w)
    (hsw : w.bare.cpu.Ip ∉ w.arms.sw) (hhw : ∀ i, w.arms.hw i ≠ some w.bare.cpu.Ip) :
    Free tid w.bare.cpu.Ip m.dbg := by
  refine ⟨fun harmed => hsw ((h.calm.inForce.armed _).mpr ⟨h.related.well.ip, harmed⟩),
    fun i x hx heq => hhw i ?_⟩
  rw [h.calm.inForce.slots] at hx
  rw [← heq]
  exact (Arms.slots_eq_some hx).1

theorem Tracking.quiet {w : Watched b σ} (h : Tracking exec starts tid ans m w)
    (hsw : w.bare.cpu.Ip ∉ w.arms.sw) (hhw : ∀ i, w.arms.hw i ≠ some w.bare.cpu.Ip) :
    Tracking exec starts tid ans (m.step exec (answering ans) tid) ⟨w.bare.next exec, w.arms⟩ ∧
      (m.step exec (answering ans) tid).reports = m.reports :=
  Tracking.after_report h.related (Or.inl h.calm) (h.free hsw hhw) h.distinct

theorem machine_reaches (exec : Exec b σ) (starts : Set (LPVOID b)) (tid : DWORD)
    (ans : Call b → Debugger b → BreakpointAction) :
    Reaches (Machine.step exec (answering ans) tid) (Watched.Step exec) Machine.reports
      Option.toList (Tracking exec starts tid ans) := by
  intro m w h
  by_cases hhw : ∃ i, w.arms.hw i = some w.bare.cpu.Ip
  · obtain ⟨i, hi⟩ := hhw
    obtain ⟨bpType, w', hstep, htrack, hrep⟩ := h.hardware hi
    exact ⟨2, _, w', hstep, htrack, hrep⟩
  · by_cases hsw : w.bare.cpu.Ip ∈ w.arms.sw
    · obtain ⟨bpType, w', hstep, htrack, hrep⟩ := h.breakpoint hsw
      exact ⟨2, _, w', hstep, htrack, hrep⟩
    · have hnone : ∀ i, w.arms.hw i ≠ some w.bare.cpu.Ip := fun i hi => hhw ⟨i, hi⟩
      obtain ⟨htrack, hrep⟩ := h.quiet hsw hnone
      refine ⟨1, none, _, .quiet hsw hnone, htrack, ?_⟩
      rw [Option.toList_none, List.append_nil]
      exact hrep

/-! ## Installing breakpoints -/

inductive Install (b : Build)
  | software (a : LPVOID b)
  | hardware (bp : HwBp b)

namespace Install

def address : Install b → LPVOID b
  | software a => a
  | hardware bp => bp.address

def run (d : Debugger b) : Install b → Debugger b
  | software a => d.setBreakpoint a
  | hardware bp => (d.setHardwareBreakpoint bp).1

def arms (A : Arms b) : Install b → Arms b
  | software a => A.arm a
  | hardware bp =>
    match bp.reg.slot? with
    | some i => A.put i (some bp.address)
    | none => A

/-- An int3 goes on the first byte of an instruction, a slot gets an instruction breakpoint. -/
def Proper (starts : Set (LPVOID b)) : Install b → Prop
  | software a => a ∈ starts
  | hardware bp => bp.Instruction

end Install

def Arms.none : Arms b := ⟨∅, fun _ => Option.none⟩

def Arms.Uses (A : Arms b) (a : LPVOID b) : Prop := a ∈ A.sw ∨ ∃ i, A.hw i = some a

theorem Arms.Distinct.none : (Arms.none : Arms b).Distinct :=
  ⟨(fun _ _ h => by cases h), (fun _ _ _ h => by cases h)⟩

theorem Arms.Distinct.arm (h : A.Distinct) {a : LPVOID b} (ha : ¬ A.Uses a) :
    (A.arm a).Distinct := by
  refine ⟨fun i x hx hmem => ?_, h.slots⟩
  rcases Set.mem_insert_iff.mp hmem with rfl | hmem
  · exact ha (Or.inr ⟨i, hx⟩)
  · exact h.kinds i x hx hmem

theorem Arms.put_some {i j : Fin 4} {a x : LPVOID b} (hx : (A.put i (some a)).hw j = some x) :
    (j = i ∧ x = a) ∨ A.hw j = some x := by
  have hx' : Function.update A.hw i (some a) j = some x := hx
  by_cases hji : j = i
  · rw [hji, Function.update_self] at hx'
    exact Or.inl ⟨hji, (Option.some.inj hx').symm⟩
  · rw [Function.update_of_ne hji] at hx'
    exact Or.inr hx'

theorem Arms.Distinct.put (h : A.Distinct) {a : LPVOID b} (ha : ¬ A.Uses a) (i : Fin 4) :
    (A.put i (some a)).Distinct := by
  refine ⟨fun j x hx hmem => ?_, fun j k x hj hk => ?_⟩
  · rcases Arms.put_some hx with ⟨-, rfl⟩ | hold
    · exact ha (Or.inl hmem)
    · exact h.kinds j x hold hmem
  · rcases Arms.put_some hj with ⟨rfl, rfl⟩ | hoj
    · rcases Arms.put_some hk with ⟨rfl, -⟩ | hok
      · rfl
      · exact absurd (Or.inr ⟨k, hok⟩) ha
    · rcases Arms.put_some hk with ⟨rfl, rfl⟩ | hok
      · exact absurd (Or.inr ⟨j, hoj⟩) ha
      · exact h.slots j k x hoj hok

/-- A debugger at a stopped process whose only thread is `tid`, with no breakpoint
set and no restore pending; `lastBpType` and the restore records are arbitrary. -/
structure Fresh (tid : DWORD) (d : Debugger b) : Prop where
  only : OnlyThread tid d
  handles : ∀ thread ∈ d.threads, d.os.handles.lookup thread.hThread = some tid
  accessible : d.os.memory.Accessible
  breakpoints : d.breakpoints = ∅
  slots : ∀ i, d.slots tid i = none
  trapFlag : (d.os.context tid).trapFlag = false
  stepping : d.stepping = false
  needToRestoreBreakpoint : d.needToRestoreBreakpoint = false
  restoreHwBP : d.restoreHwBP = false

theorem fresh_ofCode (code : LPVOID b → BYTE) (tid : DWORD) :
    Fresh tid (new (.ofCode code [tid])) := by
  have hflags : (0 : DWORD).getLsbD 8 = false := by decide
  refine ⟨OnlyThread.ofCode _ tid, (fun thread hmem => by cases hmem), fun _ => ⟨rfl, rfl⟩, rfl,
    fun i => ?_, hflags, rfl, rfl, rfl⟩
  rw [slots_ofCode]

structure Installed (starts : Set (LPVOID b)) (tid : DWORD) (d₀ : Debugger b) (A : Arms b)
    (d : Debugger b) : Prop where
  intact : d.Intact tid starts d₀.os.memory.bytes none
  ip : (d.os.context tid).Ip = (d₀.os.context tid).Ip
  eflags : (d.os.context tid).EFlags = (d₀.os.context tid).EFlags
  stepping : d.stepping = false
  notNeeded : d.needToRestoreBreakpoint = false
  notWaiting : d.restoreHwBP = false
  lastBpType : d.lastBpType = d₀.lastBpType
  inForce : InForce tid starts A d
  distinct : A.Distinct

variable {d₀ d : Debugger b}

theorem Fresh.installed (h : Fresh tid d₀) (hcode : ∀ a ∈ starts, d₀.os.memory.bytes a ≠ int3) :
    Installed starts tid d₀ Arms.none d₀ := by
  have hno : ∀ a : LPVOID b, d₀.breakpoints[a]? = none := by
    intro a
    rw [h.breakpoints]
    exact Std.TreeMap.getElem?_emptyc
  have htable : d₀.table = fun _ => none := funext hno
  have hslots : d₀.slots tid = fun _ => none := funext h.slots
  refine ⟨⟨h.only, ⟨(fun x hx => by cases hx), fun thread hmem => ?_⟩, ⟨h.accessible, ?_⟩,
    fun a ha => ?_, fun hneed => ?_, ?_, fun hwait => ?_⟩, rfl, rfl, h.stepping,
    h.needToRestoreBreakpoint, h.restoreHwBP, rfl, ⟨fun a => ?_, hslots, ?_⟩, .none⟩
  · exact ⟨(fun hx => by cases hx), h.handles thread hmem⟩
  · rw [htable]
    exact Overlay.Covers.empty _
  · rw [h.breakpoints] at ha
    exact absurd ha Std.TreeMap.not_mem_emptyc
  · rw [h.needToRestoreBreakpoint] at hneed
    cases hneed
  · rw [hslots]
    exact ExecuteOnly.none
  · rw [h.restoreHwBP] at hwait
    cases hwait
  · exact iff_of_false (Set.notMem_empty a) (fun ha => hcode a ha.1 ha.2)
  · rintro ⟨i, hi⟩
    exact absurd rfl hi

theorem Installed.run (h : Installed starts tid d₀ A d) {x : Install b} (hx : x.Proper starts)
    (hfree : ¬ A.Uses x.address) : Installed starts tid d₀ (x.arms A) (x.run d) := by
  cases x with
  | software a =>
    have hf := setBreakpoint_frame a d
    have hs := hf.sameHardware
    refine ⟨h.intact.setBreakpoint hx, ?_, ?_, ?_, ?_, hs.restoreHwBP.trans h.notWaiting, ?_,
      h.inForce.arm hx (setBreakpoint_armed h.intact.patched.accessible a)
        (congrFun hs.slots tid) hs.threads, h.distinct.arm hfree⟩
    · rw [← h.ip, Install.run, Os.context, Os.context, hf.thread]
    · rw [← h.eflags, Install.run, Os.context, Os.context, hf.thread]
    · exact (congrArg Debugger.stepping hf.rest).trans h.stepping
    · exact (congrArg needToRestoreBreakpoint hf.rest).trans h.notNeeded
    · exact (congrArg Debugger.lastBpType hf.rest).trans h.lastBpType
  | hardware bp =>
    obtain ⟨⟨i, hreg⟩, htype, hlen⟩ := hx
    have hf := setHardwareBreakpoint_frame bp d
    have hs := hf.sameRestore
    have harms : Install.arms A (.hardware bp) = A.put i (some bp.address) := by
      simp only [Install.arms, hreg, DRReg.slot?_ofSlot]
    rw [harms]
    exact ⟨h.intact.setHardwareBreakpoint ⟨⟨i, hreg⟩, htype, hlen⟩, (hf.ip tid).trans h.ip,
      (hf.eflags tid).trans h.eflags, hs.stepping.trans h.stepping,
      hs.needToRestoreBreakpoint.trans h.notNeeded, hs.restoreHwBP.trans h.notWaiting,
      hs.lastBpType.trans h.lastBpType,
      h.inForce.setHardwareBreakpoint h.intact.only hreg htype hlen, h.distinct.put hfree i⟩

theorem Install.uses_arms {x : Install b} {a : LPVOID b} (ha : (x.arms A).Uses a) :
    a = x.address ∨ A.Uses a := by
  cases x with
  | software c =>
    rcases ha with hsw | hhw
    · rcases Set.mem_insert_iff.mp hsw with rfl | hsw
      · exact Or.inl rfl
      · exact Or.inr (Or.inl hsw)
    · exact Or.inr (Or.inr hhw)
  | hardware bp =>
    unfold Install.arms at ha
    cases hslot : bp.reg.slot? with
    | none =>
      simp only [hslot] at ha
      exact Or.inr ha
    | some i =>
      simp only [hslot] at ha
      rcases ha with hsw | ⟨j, hj⟩
      · exact Or.inr (Or.inl hsw)
      · rcases Arms.put_some hj with ⟨-, rfl⟩ | hold
        · exact Or.inl rfl
        · exact Or.inr (Or.inr ⟨j, hold⟩)

theorem Installed.runAll (h : Installed starts tid d₀ A d) {xs : List (Install b)}
    (hproper : ∀ x ∈ xs, x.Proper starts) (hnodup : (xs.map Install.address).Nodup)
    (hfree : ∀ x ∈ xs, ¬ A.Uses x.address) :
    Installed starts tid d₀ (xs.foldl Install.arms A) (xs.foldl Install.run d) := by
  induction xs generalizing A d with
  | nil => exact h
  | cons x xs ih =>
    rw [List.map_cons, List.nodup_cons] at hnodup
    have hx := h.run (hproper x List.mem_cons_self) (hfree x List.mem_cons_self)
    refine ih hx (fun y hy => hproper y (List.mem_cons_of_mem x hy)) hnodup.2 (fun y hy huse => ?_)
    rcases Install.uses_arms huse with heq | hold
    · rw [← heq] at hnodup
      exact hnodup.1 (List.mem_map_of_mem hy)
    · exact hfree y (List.mem_cons_of_mem x hy) hold

theorem Installed.related (h : Installed starts tid d₀ A d) {data : σ}
    (hprogram : ∀ n, WellBehaved exec starts ((Bare.next exec)^[n]
      ⟨d₀.os.memory.bytes, Machine.cpu tid ⟨d₀, data⟩⟩)) :
    Related exec starts tid ⟨d, data⟩ ⟨d₀.os.memory.bytes, Machine.cpu tid ⟨d₀, data⟩⟩ := by
  refine ⟨h.intact, ?_, hprogram⟩
  simp only [Machine.cpu, Context.userFlags, h.ip, h.eflags]

theorem Installed.tracking (h : Installed starts tid d₀ A d) (hfresh : Fresh tid d₀)
    (hsilent : StepsSilent ans d₀) {data : σ}
    (hprogram : ∀ n, WellBehaved exec starts ((Bare.next exec)^[n]
      ⟨d₀.os.memory.bytes, Machine.cpu tid ⟨d₀, data⟩⟩)) :
    Tracking exec starts tid ans ⟨d, data⟩
      ⟨⟨d₀.os.memory.bytes, Machine.cpu tid ⟨d₀, data⟩⟩, A⟩ := by
  refine ⟨h.related hprogram, ⟨h.stepping, h.notNeeded, h.notWaiting, ?_, ?_, h.inForce⟩,
    h.distinct⟩
  · rw [StepsSilent, h.lastBpType]
    exact hsilent
  · rw [Context.trapFlag, h.eflags]
    exact hfresh.trapFlag

/-- Breakpoints at distinct addresses, on first bytes of instructions or in slots.
Whatever the callbacks answer, the states of the debugged machine match those of
the bare machine, whose instructions are executed one by one in between; and if
`lastBpType` does not hold `SINGLE_STEP` or no answer is `SINGLE_STEP`, every
state of the bare machine is reached, and what is reported until then is exactly
the breakpoints in force at the instructions before it. -/
theorem breakpoints_transparent {b : Build} {σ : Type*} {exec : Exec b σ} {starts : Set (LPVOID b)}
    {tid : DWORD} {ans : Call b → Debugger b → BreakpointAction} {d₀ : Debugger b} {data : σ}
    {installs : List (Install b)} (hfresh : Fresh tid d₀)
    (hproper : ∀ x ∈ installs, x.Proper starts)
    (hdistinct : (installs.map Install.address).Nodup)
    (hprogram : ∀ n, WellBehaved exec starts ((Bare.next exec)^[n]
      ⟨d₀.os.memory.bytes, Machine.cpu tid ⟨d₀, data⟩⟩)) :
    let m : Machine b σ := ⟨installs.foldl Install.run d₀, data⟩
    let s : Bare b σ := ⟨d₀.os.memory.bytes, Machine.cpu tid ⟨d₀, data⟩⟩
    let step := Machine.step exec (answering ans) tid
    (∃ f : ℕ → ℕ, f 0 = 0 ∧ (∀ k, f (k + 1) = f k ∨ f (k + 1) = f k + 1) ∧
        ∀ k, Matches tid (step^[k] m) ((Bare.next exec)^[f k] s)) ∧
      (StepsSilent ans d₀ → ∀ n, ∃ k rs w, rs.length = n ∧
        Run (Watched.Step exec) ⟨s, installs.foldl Install.arms Arms.none⟩ rs w ∧
        w.bare = (Bare.next exec)^[n] s ∧ Matches tid (step^[k] m) w.bare ∧
        (step^[k] m).dbg.stepping = false ∧
        (step^[k] m).reports = m.reports ++ rs.flatMap Option.toList) := by
  intro m s step
  have hcode : ∀ a ∈ starts, d₀.os.memory.bytes a ≠ int3 := (hprogram 0).int3
  have hinstalled := (hfresh.installed hcode).runAll hproper hdistinct (fun x _ huse => by
    rcases huse with hsw | ⟨i, hi⟩
    · exact hsw
    · cases hi)
  constructor
  · have hsim := machine_simulates exec starts tid ans
    have hrel := hinstalled.related hprogram
    refine ⟨schedule step (Bare.next exec) (Related exec starts tid) m s, rfl,
      schedule_succ m s, fun k => ?_⟩
    exact (hsim.schedule hrel k).matches_bare
  · intro hsilent n
    obtain ⟨k, rs, w, hlen, hrun, htrack, hrep⟩ :=
      (machine_reaches exec starts tid ans).run n (hinstalled.tracking hfresh hsilent hprogram)
    refine ⟨k, rs, w, hlen, hrun, ?_, htrack.related.matches_bare, htrack.calm.stepping, hrep⟩
    rw [Watched.run_bare hrun, hlen]

/-- A program that jumps between 0 and 1 and counts, with an int3 at 0 and a slot
at 1; the answers change with what has been reported before. -/
theorem breakpoints_transparent_toggle :
    let exec : Exec .x64 ℕ := fun _ c => ⟨⟨if c.Ip = 0 then 1 else 0, c.EFlags, c.data + 1⟩, []⟩
    let ans : Call .x64 → Debugger .x64 → BreakpointAction :=
      fun _ d => if d.trace.length < 5 then .RESTORE else .SINGLE_STEP
    let d₀ : Debugger .x64 := new (.ofCode (fun _ => 0x90) [7])
    let installs : List (Install .x64) :=
      [.software 0, .hardware ⟨0, 1, .DR2, .EXECUTE, .BYTE⟩]
    let m : Machine .x64 ℕ := ⟨installs.foldl Install.run d₀, 0⟩
    let s : Bare .x64 ℕ := ⟨d₀.os.memory.bytes, Machine.cpu 7 ⟨d₀, 0⟩⟩
    ∀ n, ∃ k, Matches 7 ((Machine.step exec (answering ans) 7)^[k] m) ((Bare.next exec)^[n] s) := by
  intro exec ans d₀ installs m s n
  have hfresh : Fresh 7 d₀ := by
    refine ⟨OnlyThread.ofCode _ 7, (fun thread hmem => by cases hmem), fun _ => ⟨rfl, rfl⟩, rfl,
      fun i => ?_, by decide, rfl, rfl, rfl⟩
    rw [slots_ofCode]
  have hproper : ∀ x ∈ installs, x.Proper ({0, 1} : Set (LPVOID .x64)) := by
    intro x hx
    rcases List.mem_cons.mp hx with rfl | hx
    · exact Set.mem_insert _ _
    · rw [List.mem_singleton.mp hx]
      exact ⟨⟨2, rfl⟩, rfl, rfl⟩
  have hrun : ∀ n, ((Bare.next exec)^[n] s).memory = (fun _ => 0x90) ∧
      ((Bare.next exec)^[n] s).cpu.EFlags = 0 ∧
      ((Bare.next exec)^[n] s).cpu.Ip ∈ ({0, 1} : Set (LPVOID .x64)) := by
    intro n
    induction n with
    | zero =>
      have hflags : (0 : DWORD) &&& ~~~0x100 = 0 := by decide
      exact ⟨rfl, hflags, Set.mem_insert _ _⟩
    | succ n ih =>
      rw [Function.iterate_succ_apply']
      refine ⟨ih.1, ih.2.1, ?_⟩
      simp only [Bare.next, exec]
      split_ifs
      · exact Set.mem_insert_of_mem _ rfl
      · exact Set.mem_insert _ _
  have hprogram : ∀ n, WellBehaved exec {0, 1} ((Bare.next exec)^[n] s) := by
    intro n
    obtain ⟨hmem, hflags, hip⟩ := hrun n
    refine ⟨hip, fun a _ => ?_, ?_, fun _ _ => rfl, (fun w hw => by cases hw)⟩
    · rw [hmem]
      change (0x90 : BYTE) ≠ int3
      decide
    · rw [hflags]
      rfl
  obtain ⟨k, -, w, -, -, hbare, hmatch, -⟩ :=
    (@breakpoints_transparent .x64 ℕ exec {0, 1} 7 ans d₀ 0 installs hfresh hproper (by decide)
      hprogram).2 (Or.inl (by decide)) n
  exact ⟨k, hbare ▸ hmatch⟩

end RoboDbg
