import RoboDbg.Foundation.Stutter
import RoboDbg.Intact

/-!
# The debugged machine simulates the bare one

Every step of the debugged machine either executes the instruction that the bare
machine executes next or only reports an exception. This holds for any answers
of the callbacks and any flags, as long as the program is intact.
-/

namespace RoboDbg

open Overlay Stutter Debugger

variable {b : Build} {σ : Type*} {exec : Exec b σ} {starts : Set (LPVOID b)} {tid : DWORD}
  {m : Machine b σ} {s : Bare b σ}

/-- The registers agree, and memory differs only where an int3 stands for the filed byte. -/
structure Matches (tid : DWORD) (m : Machine b σ) (s : Bare b σ) : Prop where
  cpu : m.cpu tid = s.cpu
  memory : ∀ a, m.dbg.os.memory.bytes a ≠ s.memory a →
    m.dbg.Armed a ∧ m.dbg.breakpoints[a]? = some (s.memory a)

structure Related (exec : Exec b σ) (starts : Set (LPVOID b)) (tid : DWORD) (m : Machine b σ)
    (s : Bare b σ) : Prop where
  intact : m.dbg.Intact tid starts s.memory none
  cpu : m.cpu tid = s.cpu
  behaved : ∀ n, WellBehaved exec starts ((Bare.next exec)^[n] s)

namespace Related

theorem well (h : Related exec starts tid m s) : WellBehaved exec starts s := h.behaved 0

theorem next_well (h : Related exec starts tid m s) : WellBehaved exec starts (s.next exec) :=
  h.behaved 1

theorem ip (h : Related exec starts tid m s) : (m.dbg.os.context tid).Ip = s.cpu.Ip :=
  congrArg Cpu.Ip h.cpu

theorem matches_bare (h : Related exec starts tid m s) : Matches tid m s :=
  ⟨h.cpu, fun _ hne => h.intact.patched.covers.of_ne hne⟩

/-- Where the program may read, memory is its own unless a breakpoint is in the way. -/
theorem bytes_eq (h : Related exec starts tid m s) (hno : ¬ m.dbg.Armed s.cpu.Ip) {a : LPVOID b}
    (ha : a ∉ starts ∨ a = s.cpu.Ip) : m.dbg.os.memory.bytes a = s.memory a := by
  by_contra hne
  obtain ⟨harmed, hfiled⟩ := h.intact.patched.covers.of_ne hne
  have hlisted : a ∈ m.dbg.breakpoints :=
    Std.TreeMap.isSome_getElem?_iff_mem.mp (Option.isSome_of_eq_some hfiled)
  rcases ha with ha | rfl
  · exact ha (h.intact.listed a hlisted)
  · exact hno harmed

theorem exec_eq (h : Related exec starts tid m s) (hno : ¬ m.dbg.Armed s.cpu.Ip) :
    exec m.dbg.os.memory.bytes (m.cpu tid) = exec s.memory s.cpu := by
  rw [h.cpu]
  exact h.well.reads _ (fun a ha => h.bytes_eq hno ha)

end Related

theorem covers_writeAll {ws : List (LPVOID b × BYTE)} {ref store : LPVOID b → BYTE}
    {table : LPVOID b → Option BYTE} (h : Covers int3 ref store table)
    (hws : ∀ w ∈ ws, table w.1 = none) :
    Covers int3 (writeAll ws ref) (writeAll ws store) table := by
  induction ws generalizing ref store with
  | nil => exact h
  | cons w ws ih =>
    have hw : Covers int3 (Function.update ref w.1 w.2) (Function.update store w.1 w.2) table :=
      h.write_of_not_filed (hws w List.mem_cons_self) w.2
    exact ih hw (fun v hv => hws v (List.mem_cons_of_mem w hv))

theorem userFlags_of_no_trapFlag {x : DWORD} (hx : x.getLsbD 8 = false) : x &&& ~~~0x100 = x := by
  apply BitVec.eq_of_getLsbD_eq
  intro i hi
  have hbit : (0x100 : DWORD).getLsbD i = decide (i = 8) := by
    have hpow : (0x100 : DWORD) = BitVec.twoPow 32 8 := by decide
    rw [hpow, BitVec.getLsbD_twoPow]
    simp [eq_comm]
  rw [BitVec.getLsbD_and, BitVec.getLsbD_not, hbit]
  by_cases h8 : i = 8
  · rw [h8, hx, Bool.false_and]
  · simp [h8, hi]

namespace Related

variable {ans : Call b → Debugger b → BreakpointAction}

theorem perform (h : Related exec starts tid m s) :
    Related exec starts tid
      ⟨{ m.dbg with os := m.dbg.os.perform tid (exec s.memory s.cpu) },
        (exec s.memory s.cpu).cpu.data⟩ (s.next exec) := by
  let e := exec s.memory s.cpu
  have hs : SameHardware m.dbg { m.dbg with os := m.dbg.os.perform tid e } :=
    sameHardware_withControl m.dbg tid _ e.cpu.Ip e.cpu.EFlags
  have hws : ∀ w ∈ e.writes, m.dbg.table w.1 = none := by
    intro w hw
    by_contra hne
    have hlisted : w.1 ∈ m.dbg.breakpoints :=
      Std.TreeMap.isSome_getElem?_iff_mem.mp (Option.isSome_iff_ne_none.mpr hne)
    exact h.well.writes w hw (h.intact.listed _ hlisted)
  have hcovers := covers_writeAll h.intact.patched.covers hws
  rw [← foldl_store_bytes .debuggee] at hcovers
  refine ⟨⟨hs.onlyThread h.intact.only, h.intact.handles.of_same hs, ⟨?_, hcovers⟩,
    h.intact.listed, h.intact.pending, ?_, h.intact.record⟩, ?_, fun n => ?_⟩
  · exact foldl_store_accessible .debuggee e.writes h.intact.patched.accessible
  · rw [hs.slots]
    exact h.intact.execute
  · have hflags : e.cpu.EFlags &&& ~~~0x100 = e.cpu.EFlags :=
      userFlags_of_no_trapFlag h.next_well.trapFlag
    simp only [Machine.cpu, Context.userFlags, Os.perform, Os.withControl, Os.context_withContext,
      Function.update_self]
    rw [hflags]
    rfl
  · have hn := h.behaved (n + 1)
    rwa [Function.iterate_succ_apply] at hn

theorem report (h : Related exec starts tid m s) :
    Related exec starts tid
      (m.report (answering ans) tid EXCEPTION_SINGLE_STEP s.cpu.Ip) s := by
  have hne : EXCEPTION_SINGLE_STEP ≠ EXCEPTION_BREAKPOINT := by decide
  have hkeeps : KeepsTraps m.dbg
      (m.report (answering ans) tid EXCEPTION_SINGLE_STEP s.cpu.Ip).dbg :=
    keepsTraps_handleException hne
  refine ⟨h.intact.handleException rfl h.well.ip (h.well.int3 _ h.well.ip), ?_, h.behaved⟩
  have hcpu := h.cpu
  simp only [Machine.cpu] at hcpu ⊢
  rw [hkeeps.ip, hkeeps.userFlags]
  exact hcpu

/-- An int3 is reported behind its address and the thread is rewound to it. -/
theorem breakpoint (h : Related exec starts tid m s) (harmed : m.dbg.Armed s.cpu.Ip) :
    Related exec starts tid
      ((m.behindInt3 tid).report (answering ans) tid EXCEPTION_BREAKPOINT s.cpu.Ip) s := by
  have hcode := h.well.int3 _ h.well.ip
  let d : Debugger b := (m.behindInt3 tid).dbg
  have hs : SameHardware m.dbg d := sameHardware_withControl m.dbg tid _ _ _
  have hintact : d.Intact tid starts s.memory none :=
    h.intact.of_same hs rfl rfl h.intact.pending
  have hlisted : s.cpu.Ip ∈ d.breakpoints := h.intact.mem_of_armed hcode harmed
  have hcontext : (d.os.context tid).Ip = s.cpu.Ip + 1 ∧
      (d.os.context tid).userFlags = (m.dbg.os.context tid).userFlags := by
    simp only [d, Machine.behindInt3, Os.withControl, Os.context_withContext, Function.update_self,
      h.ip]
    exact ⟨trivial, rfl⟩
  let e : ExceptionEvent b := ⟨EXCEPTION_BREAKPOINT, s.cpu.Ip, tid, 0, 0⟩
  have hhit : Hit d (d.handleException (answering ans) e) tid s.cpu.Ip d.os.handles.next
      (d.hitAnswer ans e) := hit_handleException hintact.only.reliable rfl hlisted
  have hip : ((d.handleException (answering ans) e).os.context tid).Ip = s.cpu.Ip := by
    rw [hhit.ip, hcontext.1, BitVec.add_sub_cancel]
  have hflags : ((d.handleException (answering ans) e).os.context tid).userFlags =
      (m.dbg.os.context tid).userFlags := (hhit.userFlags tid).trans hcontext.2
  refine ⟨hintact.handleException rfl h.well.ip hcode, ?_, h.behaved⟩
  have hcpu := h.cpu
  simp only [Machine.cpu] at hcpu
  simp only [Machine.cpu, Machine.report]
  rw [hip, hflags, ← h.ip]
  exact hcpu

end Related

/-! ## The step of the machine, by cases -/

namespace Machine

variable {cb : Callbacks b}

theorem step_of_faults (h : (m.dbg.os.context tid).Faults) :
    m.step exec cb tid = m.report cb tid EXCEPTION_SINGLE_STEP (m.dbg.os.context tid).Ip := by
  simp only [step, if_pos h]

theorem step_of_armed (h : ¬ (m.dbg.os.context tid).Faults)
    (ha : m.dbg.Armed (m.dbg.os.context tid).Ip) :
    m.step exec cb tid =
      (m.behindInt3 tid).report cb tid EXCEPTION_BREAKPOINT (m.dbg.os.context tid).Ip := by
  have hb : m.dbg.os.memory.bytes (m.dbg.os.context tid).Ip = int3 := ha
  simp only [step, if_neg h, if_pos hb]

theorem step_of_free (h : ¬ (m.dbg.os.context tid).Faults)
    (ha : ¬ m.dbg.Armed (m.dbg.os.context tid).Ip) :
    m.step exec cb tid =
      let e := exec m.dbg.os.memory.bytes (m.cpu tid)
      let m' : Machine b σ := ⟨{ m.dbg with os := m.dbg.os.perform tid e }, e.cpu.data⟩
      if (m.dbg.os.context tid).trapFlag then m'.report cb tid EXCEPTION_SINGLE_STEP e.cpu.Ip
      else m' := by
  have hb : ¬ m.dbg.os.memory.bytes (m.dbg.os.context tid).Ip = int3 := ha
  simp only [step, if_neg h, if_neg hb]

end Machine

theorem machine_simulates (exec : Exec b σ) (starts : Set (LPVOID b)) (tid : DWORD)
    (ans : Call b → Debugger b → BreakpointAction) :
    Simulates (Machine.step exec (answering ans) tid) (Bare.next exec)
      (Related exec starts tid) := by
  intro m s h
  by_cases hf : (m.dbg.os.context tid).Faults
  · left
    rw [Machine.step_of_faults hf, h.ip]
    exact h.report
  · by_cases harmed : m.dbg.Armed (m.dbg.os.context tid).Ip
    · left
      rw [Machine.step_of_armed hf harmed, h.ip]
      rw [h.ip] at harmed
      exact h.breakpoint harmed
    · right
      rw [Machine.step_of_free hf harmed]
      rw [h.ip] at harmed
      rw [h.exec_eq harmed]
      have hp := h.perform
      simp only []
      split_ifs
      · exact hp.report
      · exact hp

end RoboDbg
