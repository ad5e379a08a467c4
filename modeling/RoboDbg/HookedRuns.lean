import RoboDbg.Hooks

/-!
# Runs with callbacks that change the program

Between two reports the machine runs as with callbacks that only answer. So whole runs
are runs of the program in which the change of every breakpoint in force stands in front
of its instruction.
-/

namespace RoboDbg

open Stutter Runs Debugger

variable {b : Build} {σ : Type*} {exec : Exec b σ} {edit : Edit b σ}
  {ans : Call b → Debugger b → BreakpointAction} {starts used : Set (LPVOID b)} {tid : DWORD}
  {m : Machine b σ} {s : Bare b σ} {A : Arms b} {P : Set (Bare b σ)}

theorem Machine.stepEditing_run (exec : Exec b σ) (edit : Edit b σ)
    (ans : Call b → Debugger b → BreakpointAction) (tid : DWORD) {m : Machine b σ}
    (hloop : m.dbg.dbgLoop = true) :
    ∃ data turns, Run (LoopStep (fun _ _ => True) (editing edit ans tid data)) m.dbg turns
      (m.stepEditing exec edit ans tid).dbg := by
  have hmove : ∀ data os, LoopStep (fun _ _ => True) (editing edit ans tid data) m.dbg
      (.debuggee os) { m.dbg with os := os } := fun _ _ => .debuggee trivial
  have hreport : ∀ os data code a, ∃ turns, Run
      (LoopStep (fun _ _ => True) (editing edit ans tid data)) m.dbg turns
      (reportEditing edit ans tid code a (⟨{ m.dbg with os := os }, data⟩ : Machine b σ)).dbg := by
    intro os data code a
    have hloop' : ({ m.dbg with os := os } : Debugger b).dbgLoop = true := hloop
    exact ⟨_, .cons (hmove data os) (.single (.event (.EXCEPTION ⟨code, a, tid, 0, 0⟩) hloop'))⟩
  simp only [stepEditing]
  split_ifs
  · exact ⟨m.data, _, .single (.event (.EXCEPTION ⟨_, _, tid, 0, 0⟩) hloop)⟩
  · exact ⟨_, hreport _ _ _ _⟩
  · exact ⟨_, hreport _ _ _ _⟩
  · exact ⟨m.data, _, .single (hmove _ _)⟩

/-! ## Steps without a callback -/

namespace Related

theorem stepEditing_eq (h : Related exec starts tid m s) (hf : Free tid s.cpu.Ip m.dbg) :
    m.stepEditing exec edit ans tid =
      if (m.dbg.os.context tid).trapFlag then
        (m.performed exec tid s).reportEditing edit ans tid EXCEPTION_SINGLE_STEP
          (s.next exec).cpu.Ip
      else m.performed exec tid s := by
  have hfaults : ¬ (m.dbg.os.context tid).Faults := by
    rintro ⟨i, x, hx, -, haddr⟩
    exact hf.slots i x hx (haddr.trans h.ip)
  have harmed : ¬ m.dbg.os.memory.bytes (m.dbg.os.context tid).Ip = int3 := by
    rw [h.ip]
    exact hf.armed
  simp only [Machine.stepEditing, if_neg hfaults, if_neg harmed, h.exec_eq hf.armed]
  rfl

theorem stepEditing_eq_step (h : Related exec starts tid m s) (hf : Free tid s.cpu.Ip m.dbg)
    (hout : Calm ans tid starts A m.dbg ∨ Awaiting tid starts A m.dbg) :
    m.stepEditing exec edit ans tid = m.step exec (answering ans) tid := by
  rw [h.stepEditing_eq hf, h.step_eq hf]
  rcases hout with hcalm | hawait
  · rw [hcalm.trapFlag]
    rfl
  · have hp : Related exec starts tid (m.performed exec tid s) (s.next exec) := h.perform
    have hr : Restores tid starts A (m.performed exec tid s).dbg :=
      hawait.restores.of_same (fun a ha => h.performed_armed ha) (congrFun (performed_slots m s) tid)
        rfl rfl rfl rfl rfl
    rw [hawait.trapFlag, if_pos rfl, if_pos rfl]
    exact reportEditing_of_silent
      (arrive_silent_step hr hp.intact hawait.stepping hawait.silent _)

end Related

/-! ## Runs -/

/-- Between two instructions of a program that stays in `P`. -/
structure EditTracking (exec : Exec b σ) (starts used : Set (LPVOID b)) (tid : DWORD)
    (ans : Call b → Debugger b → BreakpointAction) (P : Set (Bare b σ)) (m : Machine b σ)
    (w : Watched b σ) : Prop where
  tracking : Tracking exec starts tid ans m w
  program : w.bare ∈ P
  used : ∀ a, w.arms.Uses a → a ∈ used

theorem Arms.uses_disarm {a x : LPVOID b} (h : (A.disarm a).Uses x) : A.Uses x :=
  h.imp_left (fun hsw => hsw.1)

theorem Arms.uses_put_none {i : Fin 4} {x : LPVOID b} (h : (A.put i Option.none).Uses x) :
    A.Uses x :=
  h.imp_right (fun ⟨j, hj⟩ => ⟨j, Arms.put_none hj⟩)

theorem EditTracking.after_report {m₁ : Machine b σ} {A₀ : Arms b}
    (hP : Program exec edit starts used P) (h : Related exec starts tid m₁ s) (hs : s ∈ P)
    (hout : Calm ans tid starts A m₁.dbg ∨ Awaiting tid starts A m₁.dbg)
    (hforce : InForce tid starts A₀ m₁.dbg) (hno : ¬ A₀.Uses s.cpu.Ip) (hA : A.Distinct)
    (hused : ∀ a, A.Uses a → a ∈ used) :
    EditTracking exec starts used tid ans P (m₁.stepEditing exec edit ans tid)
        ⟨s.next exec, A⟩ ∧
      (m₁.stepEditing exec edit ans tid).reports = m₁.reports := by
  have hf : Free tid s.cpu.Ip m₁.dbg := hforce.free h.well.ip hno
  obtain ⟨htrack, hreports⟩ := Tracking.after_report h hout hf hA
  rw [h.stepEditing_eq_step hf hout]
  exact ⟨⟨htrack, hP.next s hs, hused⟩, hreports⟩

theorem ProperEdit.not_uses {c : Call b} {A₀ : Arms b} (hp : ProperEdit edit starts used c s)
    (hhere : ¬ A₀.Uses s.cpu.Ip) (hused : ∀ a, A₀.Uses a → a ∈ used) :
    ¬ A₀.Uses (s.callback edit c).cpu.Ip := by
  intro huse
  rcases hp.ip with heq | hnot
  · exact hhere (heq ▸ huse)
  · exact hnot (hused _ huse)

namespace EditTracking

variable {w : Watched b σ}

theorem quiet (h : EditTracking exec starts used tid ans P m w)
    (hP : Program exec edit starts used P) (hsw : w.bare.cpu.Ip ∉ w.arms.sw)
    (hhw : ∀ i, w.arms.hw i ≠ some w.bare.cpu.Ip) :
    EditTracking exec starts used tid ans P (m.stepEditing exec edit ans tid)
        ⟨w.bare.next exec, w.arms⟩ ∧
      (m.stepEditing exec edit ans tid).reports = m.reports := by
  have hcalm := h.tracking.calm
  refine EditTracking.after_report hP h.tracking.related h.program (Or.inl hcalm) hcalm.inForce
    ?_ h.tracking.distinct h.used
  rintro (huse | ⟨i, hi⟩)
  · exact hsw huse
  · exact hhw i hi

theorem breakpoint (h : EditTracking exec starts used tid ans P m w)
    (hP : Program exec edit starts used P) (hsw : w.bare.cpu.Ip ∈ w.arms.sw) :
    ∃ bpType w', Watched.EditStep exec edit w (some (.onBreakpoint w.bare.cpu.Ip 0, bpType)) w' ∧
      EditTracking exec starts used tid ans P ((Machine.stepEditing exec edit ans tid)^[2] m) w' ∧
      ((Machine.stepEditing exec edit ans tid)^[2] m).reports =
        m.reports ++ [(.onBreakpoint w.bare.cpu.Ip 0, bpType)] := by
  obtain ⟨⟨hrel, hcalm, hA⟩, hw, hused⟩ := h
  obtain ⟨-, harmed⟩ := (hcalm.inForce.armed _).mp hsw
  have hfaults : ¬ (m.dbg.os.context tid).Faults := by
    rintro ⟨i, x, hx, -, haddr⟩
    have hslot : m.dbg.slots tid i = some x := hx
    rw [hcalm.inForce.slots] at hslot
    have hhw := (Arms.slots_eq_some hslot).1
    rw [haddr, hrel.ip] at hhw
    exact hA.kinds i _ hhw hsw
  have hstep : m.stepEditing exec edit ans tid =
      (m.behindInt3 tid).reportEditing edit ans tid EXCEPTION_BREAKPOINT w.bare.cpu.Ip := by
    have hbytes : m.dbg.os.memory.bytes w.bare.cpu.Ip = int3 := harmed
    simp only [Machine.stepEditing, if_neg hfaults, hrel.ip, if_pos hbytes]
  obtain ⟨hrel₁, bpType, hout, hforce, hreports⟩ :=
    hrel.breakpoint_edited hP hw hcalm hA hsw
  have hhere : ¬ (w.arms.disarm w.bare.cpu.Ip).Uses w.bare.cpu.Ip := by
    rintro (huse | ⟨i, hi⟩)
    · exact huse.2 rfl
    · exact hA.kinds i _ hi hsw
  have hdistinct :
      (if bpType = .RESTORE then w.arms else w.arms.disarm w.bare.cpu.Ip).Distinct := by
    split_ifs
    · exact hA
    · exact hA.disarm _
  have hleft : ∀ a, (if bpType = .RESTORE then w.arms else w.arms.disarm w.bare.cpu.Ip).Uses a →
      a ∈ used := by
    intro a ha
    split_ifs at ha
    · exact hused a ha
    · exact hused a (Arms.uses_disarm ha)
  obtain ⟨htrack, hreports'⟩ := EditTracking.after_report hP hrel₁
    (hP.callback _ hw _ .breakpoint) hout hforce
    ((hP.proper _ hw _ .breakpoint).not_uses hhere (fun a ha => hused a (Arms.uses_disarm ha)))
    hdistinct hleft
  refine ⟨bpType, _, .breakpoint hsw bpType, ?_, ?_⟩
  · rw [Function.iterate_succ_apply, Function.iterate_one, hstep]
    exact htrack
  · rw [Function.iterate_succ_apply, Function.iterate_one, hstep]
    exact hreports'.trans hreports

theorem hardware (h : EditTracking exec starts used tid ans P m w)
    (hP : Program exec edit starts used P) {i : Fin 4} (hhw : w.arms.hw i = some w.bare.cpu.Ip) :
    ∃ bpType w', Watched.EditStep exec edit w
        (some (.onHardwareBreakpoint w.bare.cpu.Ip 0 (.ofSlot i), bpType)) w' ∧
      EditTracking exec starts used tid ans P ((Machine.stepEditing exec edit ans tid)^[2] m) w' ∧
      ((Machine.stepEditing exec edit ans tid)^[2] m).reports =
        m.reports ++ [(.onHardwareBreakpoint w.bare.cpu.Ip 0 (.ofSlot i), bpType)] := by
  obtain ⟨⟨hrel, hcalm, hA⟩, hw, hused⟩ := h
  have hslot : m.dbg.slots tid i = some ⟨w.bare.cpu.Ip, .EXECUTE, .BYTE⟩ := by
    rw [hcalm.inForce.slots, Arms.slots, hhw]
    rfl
  have hfaults : (m.dbg.os.context tid).Faults := ⟨i, _, hslot, rfl, hrel.ip.symm⟩
  have hstep : m.stepEditing exec edit ans tid =
      m.reportEditing edit ans tid EXCEPTION_SINGLE_STEP w.bare.cpu.Ip := by
    simp only [Machine.stepEditing, if_pos hfaults, hrel.ip]
  obtain ⟨hrel₁, bpType, hout, hforce, hreports⟩ := hrel.hardware_edited hP hw hcalm hA hhw
  have hhere : ¬ (w.arms.put i none).Uses w.bare.cpu.Ip := by
    rintro (huse | ⟨j, hj⟩)
    · exact hA.kinds i _ hhw huse
    · obtain rfl := hA.slots j i _ (Arms.put_none hj) hhw
      have hnone : Function.update w.arms.hw j none j = some w.bare.cpu.Ip := hj
      rw [Function.update_self] at hnone
      cases hnone
  have hdistinct : (if bpType = .RESTORE then w.arms else w.arms.put i none).Distinct := by
    split_ifs
    · exact hA
    · exact hA.put_none i
  have hleft : ∀ a, (if bpType = .RESTORE then w.arms else w.arms.put i none).Uses a →
      a ∈ used := by
    intro a ha
    split_ifs at ha
    · exact hused a ha
    · exact hused a (Arms.uses_put_none ha)
  obtain ⟨htrack, hreports'⟩ := EditTracking.after_report hP hrel₁
    (hP.callback _ hw _ (.hardware i)) hout hforce
    ((hP.proper _ hw _ (.hardware i)).not_uses hhere (fun a ha => hused a (Arms.uses_put_none ha)))
    hdistinct hleft
  refine ⟨bpType, _, .hardware hhw bpType, ?_, ?_⟩
  · rw [Function.iterate_succ_apply, Function.iterate_one, hstep]
    exact htrack
  · rw [Function.iterate_succ_apply, Function.iterate_one, hstep]
    exact hreports'.trans hreports

theorem reaches (hP : Program exec edit starts used P) (tid : DWORD)
    (ans : Call b → Debugger b → BreakpointAction) :
    Reaches (Machine.stepEditing exec edit ans tid) (Watched.EditStep exec edit) Machine.reports
      Option.toList (EditTracking exec starts used tid ans P) := by
  intro m w h
  by_cases hhw : ∃ i, w.arms.hw i = some w.bare.cpu.Ip
  · obtain ⟨i, hi⟩ := hhw
    obtain ⟨bpType, w', hstep, htrack, hreports⟩ := h.hardware hP hi
    exact ⟨2, _, w', hstep, htrack, hreports⟩
  · by_cases hsw : w.bare.cpu.Ip ∈ w.arms.sw
    · obtain ⟨bpType, w', hstep, htrack, hreports⟩ := h.breakpoint hP hsw
      exact ⟨2, _, w', hstep, htrack, hreports⟩
    · have hnone : ∀ i, w.arms.hw i ≠ some w.bare.cpu.Ip := fun i hi => hhw ⟨i, hi⟩
      obtain ⟨htrack, hreports⟩ := h.quiet hP hsw hnone
      refine ⟨1, none, _, .quiet hsw hnone, htrack, ?_⟩
      rw [Option.toList_none, List.append_nil]
      exact hreports

end EditTracking

def Install.addresses (installs : List (Install b)) : Set (LPVOID b) :=
  {a | a ∈ installs.map Install.address}

theorem Install.uses_foldl {installs : List (Install b)} {A : Arms b} {a : LPVOID b}
    (h : (installs.foldl Install.arms A).Uses a) : a ∈ Install.addresses installs ∨ A.Uses a := by
  induction installs generalizing A with
  | nil => exact Or.inr h
  | cons x installs ih =>
    rcases ih h with hmem | huse
    · exact Or.inl (List.mem_cons_of_mem _ hmem)
    · rcases Install.uses_arms huse with rfl | hold
      · exact Or.inl List.mem_cons_self
      · exact Or.inr hold

/-- Breakpoints at distinct addresses whose callbacks change registers, flags and memory.
The debugged machine runs through the states of the program in which each change stands in
front of the instruction of its breakpoint, for as long as the breakpoint is in force, and
it reports exactly the breakpoints in force at the instructions before. -/
theorem hooks_inline {d₀ : Debugger b} {data : σ} {installs : List (Install b)}
    (hfresh : Fresh tid d₀) (hproper : ∀ x ∈ installs, x.Proper starts)
    (hdistinct : (installs.map Install.address).Nodup)
    (hprogram : Program exec edit starts (Install.addresses installs) P)
    (hstart : ⟨d₀.os.memory.bytes, Machine.cpu tid ⟨d₀, data⟩⟩ ∈ P)
    (hsilent : StepsSilent ans d₀) (n : ℕ) :
    let m : Machine b σ := ⟨installs.foldl Install.run d₀, data⟩
    let s : Bare b σ := ⟨d₀.os.memory.bytes, Machine.cpu tid ⟨d₀, data⟩⟩
    let step := Machine.stepEditing exec edit ans tid
    ∃ k rs w, rs.length = n ∧
      Run (Watched.EditStep exec edit) ⟨s, installs.foldl Install.arms Arms.none⟩ rs w ∧
      Matches tid (step^[k] m) w.bare ∧ (step^[k] m).dbg.stepping = false ∧
      (step^[k] m).reports = m.reports ++ rs.flatMap Option.toList := by
  intro m s step
  have hbehaved : ∀ n, WellBehaved exec starts ((Bare.next exec)^[n] s) := hprogram.iterate hstart
  have hunused : ∀ a : LPVOID b, ¬ Arms.none.Uses a := by
    rintro a (hsw | ⟨i, hi⟩)
    · exact hsw
    · cases hi
  have hinstalled := (hfresh.installed (hbehaved 0).int3).runAll hproper hdistinct
    (fun x _ => hunused x.address)
  have htrack : EditTracking exec starts (Install.addresses installs) tid ans P m
      ⟨s, installs.foldl Install.arms Arms.none⟩ := by
    refine ⟨hinstalled.tracking hfresh hsilent hbehaved, hstart, fun a ha => ?_⟩
    exact (Install.uses_foldl ha).resolve_right (hunused a)
  obtain ⟨k, rs, w, hlen, hrun, htrack', hreports⟩ :=
    (EditTracking.reaches hprogram tid ans).run n htrack
  exact ⟨k, rs, w, hlen, hrun, htrack'.tracking.related.matches_bare,
    htrack'.tracking.calm.stepping, hreports⟩

/-- A program that jumps between 0 and 1 and counts; the callback at 0 doubles the count. -/
theorem hooks_inline_toggle :
    let exec : Exec .x64 ℕ := fun _ c => ⟨⟨if c.Ip = 0 then 1 else 0, c.EFlags, c.data + 1⟩, []⟩
    let edit : Edit .x64 ℕ := fun _ _ c => ⟨{ c with data := 2 * c.data }, []⟩
    let ans : Call .x64 → Debugger .x64 → BreakpointAction :=
      fun _ d => if d.trace.length < 5 then .RESTORE else .BREAK
    let d₀ : Debugger .x64 := new (.ofCode (fun _ => 0x90) [7])
    let installs : List (Install .x64) := [.software 0]
    let m : Machine .x64 ℕ := ⟨installs.foldl Install.run d₀, 0⟩
    let s : Bare .x64 ℕ := ⟨d₀.os.memory.bytes, Machine.cpu 7 ⟨d₀, 0⟩⟩
    let step := Machine.stepEditing exec edit ans 7
    ∃ k rs w, rs.length = 9 ∧
      Run (Watched.EditStep exec edit) ⟨s, installs.foldl Install.arms Arms.none⟩ rs w ∧
      Matches 7 (step^[k] m) w.bare ∧ (step^[k] m).dbg.stepping = false ∧
      (step^[k] m).reports = m.reports ++ rs.flatMap Option.toList := by
  intro exec edit ans d₀ installs m s step
  have hfresh : Fresh 7 d₀ := fresh_ofCode _ 7
  have hproper : ∀ x ∈ installs, x.Proper ({0, 1} : Set (LPVOID .x64)) := by
    intro x hx
    rw [List.mem_singleton.mp hx]
    exact Set.mem_insert _ _
  let P : Set (Bare .x64 ℕ) :=
    {s | s.memory = (fun _ => 0x90) ∧ s.cpu.EFlags = 0 ∧ s.cpu.Ip ∈ ({0, 1} : Set (LPVOID .x64))}
  have hprogram : Program exec edit {0, 1} (Install.addresses installs) P := by
    refine ⟨?_, ?_, fun s _ c _ => ⟨fun _ _ => rfl, (fun w hw => by cases hw), Or.inl rfl⟩,
      fun s hs c _ => hs⟩
    · rintro s ⟨hmem, hflags, hip⟩
      refine ⟨hip, fun a _ => ?_, ?_, fun _ _ => rfl, (fun w hw => by cases hw)⟩
      · rw [hmem]
        change (0x90 : BYTE) ≠ int3
        decide
      · rw [hflags]
        rfl
    · rintro s ⟨hmem, hflags, -⟩
      refine ⟨hmem, hflags, ?_⟩
      simp only [Bare.next, exec]
      split_ifs
      · exact Set.mem_insert_of_mem _ rfl
      · exact Set.mem_insert _ _
  have hflags : (0 : DWORD) &&& ~~~0x100 = 0 := by decide
  have hstart : s ∈ P := ⟨rfl, hflags, Set.mem_insert _ _⟩
  exact @hooks_inline .x64 ℕ exec edit ans {0, 1} 7 P d₀ 0 installs hfresh hproper (by decide)
    hprogram hstart (Or.inl (by decide)) 9

end RoboDbg
