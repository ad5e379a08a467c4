import Mathlib.Data.Finset.Basic
import RoboDbg.ListedArmed
import RoboDbg.Rewind
import RoboDbg.SingleSteps

/-!
# Arrivals of free-running threads

Between two events all threads run. One that stands at a listed address traps while
the int3 is there, and carries the instruction out while the int3 is out, whoever had
it taken out. Every arrival is reported once exactly as long as the int3 is out for
the thread that steps over it, and for no other, and stays out until it has stepped.
-/

namespace RoboDbg

open Runs Debugger

variable {b : Build}

def Call.breakpoint? : Call b → Option (LPVOID b)
  | .onBreakpoint a _ => some a
  | _ => none

def Debugger.reports (d d' : Debugger b) : List (LPVOID b) :=
  (newCalls d d').filterMap Call.breakpoint?

/-- The debugger and the waiting traps; the threads between a reported hit and its
instruction; the reports for each thread since it came to where it stands; and the
instructions at listed addresses carried out so far, each with these reports. -/
structure Arrivals (b : Build) extends Queued b where
  between : Finset DWORD
  calls : DWORD → List (LPVOID b)
  executed : List (LPVOID b × List (LPVOID b))

inductive ArrivalTurn (b : Build)
  | run (tid : DWORD) (os : Os b)
  | trap (tid : DWORD)
  | handle (t : Trap b) (info : DWORD_PTR b × DWORD_PTR b)
  | event (ev : DebugEvent b)

namespace Arrivals

def start (d : Debugger b) : Arrivals b := ⟨⟨d, []⟩, ∅, fun _ => [], []⟩

def ip (s : Arrivals b) (tid : DWORD) : LPVOID b := (s.dbg.os.context tid).Ip

def ran (s : Arrivals b) (tid : DWORD) (os : Os b) : Arrivals b where
  dbg := { s.dbg with os := os }
  queue := s.queue
  between := s.between.erase tid
  calls := Function.update s.calls tid []
  executed :=
    if s.ip tid ∈ s.dbg.breakpoints then s.executed ++ [(s.ip tid, s.calls tid)] else s.executed

def stopped (s : Arrivals b) (tid : DWORD) : Arrivals b :=
  { s with toQueued := s.toQueued.trapped tid (s.ip tid) }

def afterHandling (s : Arrivals b) (t : Trap b) (info : DWORD_PTR b × DWORD_PTR b) :
    Arrivals b :=
  let q := s.toQueued.handled (fun _ _ => .RESTORE) t info
  { toQueued := q
    between := if t.address ∈ s.dbg.breakpoints then insert t.tid s.between else s.between
    calls := Function.update s.calls t.tid (s.calls t.tid ++ reports s.dbg q.dbg)
    executed := s.executed }

def afterEvent (s : Arrivals b) (ev : DebugEvent b) : Arrivals b :=
  let d := (s.dbg.handleEvent restoring ev).1
  { s with
    dbg := d
    calls :=
      match ev with
      | .EXCEPTION e =>
        Function.update s.calls e.dwThreadId (s.calls e.dwThreadId ++ reports s.dbg d)
      | _ => s.calls }

/-- What an instruction may do: anything but move another thread. -/
structure Runs (s : Arrivals b) (tid : DWORD) (os : Os b) : Prop where
  reliable : os.Reliable
  ip : ∀ u, u ≠ tid → (os.context u).Ip = s.ip u

end Arrivals

/-- Threads that do not wait for an event run in any order; events are handled in any
order, traps of int3s among them. -/
inductive ArrivalStep : Arrivals b → ArrivalTurn b → Arrivals b → Prop
  | run {s : Arrivals b} {tid : DWORD} {os : Os b} (hfree : tid ∉ s.queue.map Trap.tid)
      (hbyte : ¬ s.dbg.Armed (s.ip tid)) (h : s.Runs tid os) :
      ArrivalStep s (.run tid os) (s.ran tid os)
  | trap {s : Arrivals b} {tid : DWORD} (hfree : tid ∉ s.queue.map Trap.tid)
      (hbyte : s.dbg.Armed (s.ip tid)) : ArrivalStep s (.trap tid) (s.stopped tid)
  | handle {s : Arrivals b} {t : Trap b} (info : DWORD_PTR b × DWORD_PTR b) (hmem : t ∈ s.queue)
      (hloop : s.dbg.dbgLoop = true) : ArrivalStep s (.handle t info) (s.afterHandling t info)
  | event {s : Arrivals b} {ev : DebugEvent b} (hloop : s.dbg.dbgLoop = true)
      (hev : ∀ e, ev = .EXCEPTION e → e.ExceptionCode ≠ EXCEPTION_BREAKPOINT) :
      ArrivalStep s (.event ev) (s.afterEvent ev)

namespace Arrivals

/-- Each listed instruction was carried out after exactly one report of its address for
its thread, and no thread has been reported twice where it stands. -/
structure Exact (s : Arrivals b) : Prop where
  executed : ∀ x ∈ s.executed, x.2 = [x.1]
  standing : ∀ tid, (s.calls tid).length ≤ 1

/-- A thread carries out a listed instruction only between its own hit and that
instruction, and does not hit there again before it has. -/
def InTurn (s : Arrivals b) : ArrivalTurn b → Prop
  | .run tid _ => s.ip tid ∈ s.dbg.breakpoints → tid ∈ s.between
  | .handle t _ => t.address ∈ s.dbg.breakpoints → t.tid ∉ s.between
  | _ => True

end Arrivals

namespace Debugger

variable {d d' : Debugger b} {e : ExceptionEvent b} {hThread : HANDLE}

/-! ## Single steps are not reported -/

def Silent (d : Debugger b) : Prop :=
  d.stepping = true → d.lastBpType ≠ BreakpointAction.SINGLE_STEP.toInt

theorem Silent.handleBreakpoint (h : Silent d) (a : LPVOID b) :
    Silent (d.handleBreakpoint restoring a hThread) := by
  cases hx : d.breakpoints[a]? with
  | none =>
    rw [handleBreakpoint_of_not_listed hx]
    exact h
  | some x =>
    rw [handleBreakpoint_of_listed hx]
    exact fun _ hlast => ((answerBreakpoint_lastBpType a _).mp hlast).2 rfl

theorem Silent.handleStep (h : d.lastBpType ≠ BreakpointAction.SINGLE_STEP.toInt) (a : LPVOID b) :
    Silent (d.handleStep restoring a hThread) := by
  simp only [Debugger.handleStep, restorePending_lastBpType, h, if_false]
  intro hstepping
  cases hstepping

theorem Silent.handleHardware (h : Silent d) (code : DWORD) (a : LPVOID b) :
    Silent (d.handleHardware restoring code a hThread) := by
  simp only [Debugger.handleHardware]
  split_ifs
  · exact fun _ hlast => ((answerHardware_lastBpType a _ _).mp hlast).2 rfl
  · exact h

theorem Silent.handleException (h : Silent d) (e : ExceptionEvent b) :
    Silent (d.handleException restoring e) := by
  cases ho : d.os.fails (.openThread e.dwThreadId) with
  | true =>
    rw [handleException_of_refused ho]
    exact h
  | false =>
    have h₁ : Silent (d.opened e.dwThreadId) := h
    have hdispatch : Silent ((d.opened e.dwThreadId).dispatch restoring e d.os.handles.next) := by
      apply dispatch_elim
      case breakpoint => exact fun _ => h₁.handleBreakpoint _
      case step => exact fun _ hstepping => .handleStep (h₁ hstepping) _
      case hardware => exact fun _ _ => h₁.handleHardware _ _
      case other => exact fun _ _ => h₁
    rw [handleException_of_opened ho]
    exact hdispatch

theorem Silent.handleEvent (h : Silent d) (ev : DebugEvent b) :
    Silent (d.handleEvent restoring ev).1 := by
  apply handleEvent_elim
  case exception => exact fun e _ => h.handleException e
  case refused => exact h
  case call => exact fun _ _ => h
  case started => exact fun _ _ _ => h
  case created => exact fun _ _ _ _ => h

theorem reports_append {new : List (Call b × BreakpointAction)} (h : d'.trace = d.trace ++ new) :
    reports d d' = (new.map Prod.fst).filterMap Call.breakpoint? := by
  rw [reports, newCalls_append h]

def Unreported (d d' : Debugger b) : Prop :=
  d'.trace = d.trace ∨ ∃ c x, d'.trace = d.trace ++ [(c, x)] ∧ c.breakpoint? = none

theorem Unreported.reports_eq (h : Unreported d d') : reports d d' = [] := by
  rcases h with hsame | ⟨c, x, htrace, hc⟩
  · rw [reports, newCalls_of_same hsame, List.filterMap_nil]
  · rw [reports_append htrace, List.map_singleton, List.filterMap_cons, hc]
    rfl

theorem breakpoint?_of_returnsAction {c : Call b} (hc : c.returnsAction = false) :
    c.breakpoint? = none := by
  cases c with
  | onBreakpoint a h => cases hc
  | _ => rfl

theorem Unreported.call (d : Debugger b) {c : Call b} (hc : c.returnsAction = false) :
    Unreported d (d.call restoring c).1 :=
  Or.inr ⟨c, _, rfl, breakpoint?_of_returnsAction hc⟩

theorem Unreported.handleException (h : Silent d)
    (hbp : e.ExceptionCode ≠ EXCEPTION_BREAKPOINT) :
    Unreported d (d.handleException restoring e) := by
  cases ho : d.os.fails (.openThread e.dwThreadId) with
  | true =>
    rw [handleException_of_refused ho]
    exact Or.inl rfl
  | false =>
    let d₁ := d.opened e.dwThreadId
    have hdispatch : Unreported d₁ (d₁.dispatch restoring e d.os.handles.next) := by
      apply dispatch_elim
      case breakpoint => exact fun hcode => absurd hcode hbp
      case step =>
        intro _ hstepping
        have hlast : d₁.lastBpType ≠ BreakpointAction.SINGLE_STEP.toInt := h hstepping
        refine Or.inl ((handleStep_trace _ d₁ _ _).trans ?_)
        rw [if_neg hlast, List.append_nil]
      case hardware =>
        intro _ _
        obtain ⟨c, x, htrace, hne⟩ := d₁.handleHardware_trace restoring e.ExceptionCode
          e.ExceptionAddress d.os.handles.next
        refine Or.inr ⟨c, x, htrace, ?_⟩
        cases c with
        | onBreakpoint a h => exact absurd rfl (hne a h)
        | _ => rfl
      case other => exact fun _ hc => .call d₁ hc
    rw [handleException_of_opened ho]
    exact hdispatch

theorem Unreported.handleEvent (h : Silent d) {ev : DebugEvent b}
    (hev : ∀ e, ev = .EXCEPTION e → e.ExceptionCode ≠ EXCEPTION_BREAKPOINT) :
    Unreported d (d.handleEvent restoring ev).1 := by
  apply handleEvent_elim
  case exception => exact fun e he => .handleException h (hev e he)
  case refused => exact Or.inl rfl
  case call => exact fun _ hc => .call d hc
  case started =>
    intro base c hc
    exact Unreported.call { d with baseImageBase := base } hc
  case created =>
    intro tid c thread hc
    exact Unreported.call (d.opened tid) hc

end Debugger

namespace Arrivals

variable {s s' : Arrivals b} {turn : ArrivalTurn b}

/-! ## The reports of a thread where it stands -/

/-- A thread between its hit and its instruction has been reported once there, and
every other thread not at all. -/
structure Tallied (s : Arrivals b) : Prop where
  stopped : s.toQueued.Stopped
  silent : s.dbg.Silent
  free : ∀ tid, tid ∉ s.between → s.calls tid = []
  reported : ∀ tid ∈ s.between, ∃ a ∈ s.dbg.breakpoints, s.calls tid = [a] ∧
    (∀ t ∈ s.queue, t.tid = tid → t.address = a) ∧ (tid ∉ s.queue.map Trap.tid → s.ip tid = a)

theorem Tallied.start {d : Debugger b} (hr : d.os.Reliable) (hstepping : d.stepping = false) :
    (start d).Tallied := by
  refine ⟨⟨hr, fun t ht => ?_, List.nodup_nil⟩, fun htrue => ?_, fun _ _ => rfl, fun tid ht => ?_⟩
  · cases ht
  · change d.stepping = true at htrue
    rw [hstepping] at htrue
    cases htrue
  · exact absurd ht (Finset.notMem_empty tid)

theorem Tallied.calls_eq_iff (h : s.Tallied) {tid : DWORD} (hfree : tid ∉ s.queue.map Trap.tid) :
    s.calls tid = [s.ip tid] ↔ tid ∈ s.between := by
  constructor
  · intro hcalls
    by_contra hnot
    rw [h.free tid hnot] at hcalls
    cases hcalls
  · intro hmem
    obtain ⟨a, -, hcalls, -, hip⟩ := h.reported tid hmem
    rw [hcalls, hip hfree]

theorem Tallied.ran (h : s.Tallied) {tid : DWORD} {os : Os b}
    (hfree : tid ∉ s.queue.map Trap.tid) (hruns : s.Runs tid os) : (s.ran tid os).Tallied := by
  refine ⟨⟨hruns.reliable, fun t ht => ?_, h.stopped.distinct⟩, h.silent, fun u hu => ?_,
    fun u hu => ?_⟩
  · have hne : t.tid ≠ tid := by
      rintro rfl
      exact hfree (List.mem_map_of_mem ht)
    exact (hruns.ip t.tid hne).trans (h.stopped.ip t ht)
  · change Function.update s.calls tid [] u = []
    by_cases hut : u = tid
    · rw [hut, Function.update_self]
    · rw [Function.update_of_ne hut]
      exact h.free u (fun hmem => hu (Finset.mem_erase.mpr ⟨hut, hmem⟩))
  · obtain ⟨hut, hmem⟩ := Finset.mem_erase.mp hu
    obtain ⟨a, ha, hcalls, haddress, hip⟩ := h.reported u hmem
    refine ⟨a, ha, ?_, haddress, fun hout => (hruns.ip u hut).trans (hip hout)⟩
    exact (Function.update_of_ne hut _ _).trans hcalls

theorem Tallied.trapped (h : s.Tallied) {tid : DWORD} (hfree : tid ∉ s.queue.map Trap.tid) :
    (s.stopped tid).Tallied := by
  refine ⟨h.stopped.trapped _ hfree, h.silent, h.free, fun u hu => ?_⟩
  obtain ⟨a, ha, hcalls, haddress, hip⟩ := h.reported u hu
  refine ⟨a, ha, hcalls, fun t ht htid => ?_, fun hout => ?_⟩
  · rcases List.mem_append.mp ht with hold | hnew
    · exact haddress t hold htid
    · rw [List.mem_singleton.mp hnew] at htid ⊢
      change tid = u at htid
      rw [← htid] at hip
      exact hip hfree
  · have hout' : u ∉ s.queue.map Trap.tid ∧ u ≠ tid := by
      have hmap : (s.stopped tid).queue.map Trap.tid = s.queue.map Trap.tid ++ [tid] :=
        List.map_append
      rw [hmap, List.mem_append, List.mem_singleton, not_or] at hout
      exact hout
    have hsame : (s.stopped tid).ip u = s.ip u := by
      change ((s.dbg.os.withContext tid _).context u).Ip = _
      rw [Os.context_withContext, Function.update_of_ne hout'.2]
      rfl
    exact hsame.trans (hip hout'.1)

theorem Tallied.hit (h : s.Tallied) {t : Trap b} (info : DWORD_PTR b × DWORD_PTR b)
    (ha : t.address ∈ s.dbg.breakpoints) :
    Hit s.dbg (s.afterHandling t info).dbg t.tid t.address s.dbg.os.handles.next .RESTORE :=
  h.stopped.hit (fun _ _ => .RESTORE) info ha

theorem Tallied.reports_handled (h : s.Tallied) (t : Trap b) (info : DWORD_PTR b × DWORD_PTR b) :
    reports s.dbg (s.afterHandling t info).dbg =
      if t.address ∈ s.dbg.breakpoints then [t.address] else [] := by
  split_ifs with ha
  · rw [reports_append (h.hit info ha).trace]
    rfl
  · have he : (s.afterHandling t info).dbg = _ := h.stopped.not_hit _ info ha
    rw [he]
    exact Unreported.reports_eq (Or.inl rfl)

theorem Tallied.calls_handled (h : s.Tallied) (t : Trap b) (info : DWORD_PTR b × DWORD_PTR b) :
    (s.afterHandling t info).calls = Function.update s.calls t.tid
      (s.calls t.tid ++ if t.address ∈ s.dbg.breakpoints then [t.address] else []) :=
  congrArg (fun new => Function.update s.calls t.tid (s.calls t.tid ++ new))
    (h.reports_handled t info)

theorem Tallied.listed_handled (h : s.Tallied) (t : Trap b) (info : DWORD_PTR b × DWORD_PTR b)
    {a : LPVOID b} (ha : a ∈ s.dbg.breakpoints) :
    a ∈ (s.afterHandling t info).dbg.breakpoints := by
  by_cases hlisted : t.address ∈ s.dbg.breakpoints
  · exact (h.hit info hlisted).listed a ha (fun hbreak => by cases hbreak)
  · have he : (s.afterHandling t info).dbg = _ := h.stopped.not_hit _ info hlisted
    rw [he]
    exact ha

theorem Tallied.listed_of_between (h : s.Tallied) {t : Trap b} (ht : t ∈ s.queue)
    (hmem : t.tid ∈ s.between) : t.address ∈ s.dbg.breakpoints := by
  obtain ⟨a, ha, -, haddress, -⟩ := h.reported t.tid hmem
  rwa [haddress t ht rfl]

theorem Tallied.mem_between_handled (h : s.Tallied) {t : Trap b} (ht : t ∈ s.queue)
    (info : DWORD_PTR b × DWORD_PTR b) (u : DWORD) :
    u ∈ (s.afterHandling t info).between ↔
      if u = t.tid then t.address ∈ s.dbg.breakpoints else u ∈ s.between := by
  simp only [afterHandling]
  by_cases ha : t.address ∈ s.dbg.breakpoints
  · rw [if_pos ha, Finset.mem_insert]
    split_ifs with htid
    · exact iff_of_true (Or.inl htid) ha
    · exact or_iff_right htid
  · rw [if_neg ha]
    split_ifs with htid
    · rw [htid]
      exact iff_of_false (fun hmem => ha (h.listed_of_between ht hmem)) ha
    · rfl

theorem Tallied.ip_handled (h : s.Tallied) {t : Trap b} (ht : t ∈ s.queue)
    (info : DWORD_PTR b × DWORD_PTR b) (ha : t.address ∈ s.dbg.breakpoints) :
    (s.afterHandling t info).ip t.tid = t.address := by
  have hback : (s.afterHandling t info).ip t.tid = s.ip t.tid - 1 := (h.hit info ha).ip
  have hbehind : s.ip t.tid = t.address + 1 := h.stopped.ip t ht
  rw [hback, hbehind, BitVec.add_sub_cancel]

theorem Tallied.handled (h : s.Tallied) {t : Trap b} (ht : t ∈ s.queue)
    (info : DWORD_PTR b × DWORD_PTR b) (hturn : s.InTurn (.handle t info)) :
    (s.afterHandling t info).Tallied := by
  have hcalls := h.calls_handled t info
  have hbetween := h.mem_between_handled ht info
  refine ⟨h.stopped.handled _ ht info, h.silent.handleException _, fun u hu => ?_, fun u hu => ?_⟩
  · rw [hbetween u] at hu
    rw [hcalls]
    by_cases htid : u = t.tid
    · rw [if_pos htid] at hu
      rw [htid, Function.update_self, if_neg hu, List.append_nil]
      exact h.free t.tid (fun hmem => hu (h.listed_of_between ht hmem))
    · rw [if_neg htid] at hu
      rw [Function.update_of_ne htid]
      exact h.free u hu
  · rw [hbetween u] at hu
    by_cases htid : u = t.tid
    · rw [if_pos htid] at hu
      subst htid
      refine ⟨t.address, h.listed_handled t info hu, ?_, fun v hv hsame => ?_, fun _ => ?_⟩
      · rw [hcalls, Function.update_self, if_pos hu, h.free t.tid (hturn hu), List.nil_append]
      · exact absurd hsame (h.stopped.ne_tid ht hv).2
      · exact h.ip_handled ht info hu
    · rw [if_neg htid] at hu
      obtain ⟨a, ha, hone, haddress, hip⟩ := h.reported u hu
      refine ⟨a, h.listed_handled t info ha, ?_, fun v hv => ?_, fun hout => ?_⟩
      · rw [hcalls, Function.update_of_ne htid]
        exact hone
      · exact haddress v (h.stopped.ne_tid ht hv).1
      · refine (h.stopped.handled_ip t info htid).trans (hip fun hin => hout ?_)
        obtain ⟨v, hv, rfl⟩ := List.mem_map.mp hin
        have hvt : v ≠ t := fun heq => htid (congrArg Trap.tid heq)
        exact List.mem_map_of_mem ((List.mem_erase_of_ne hvt).mpr hv)

theorem Tallied.event (h : s.Tallied) {ev : DebugEvent b}
    (hev : ∀ e, ev = .EXCEPTION e → e.ExceptionCode ≠ EXCEPTION_BREAKPOINT) :
    (s.afterEvent ev).calls = s.calls ∧ (s.afterEvent ev).Tallied := by
  have hnone := (Unreported.handleEvent h.silent hev).reports_eq
  have hcalls : (s.afterEvent ev).calls = s.calls := by
    simp only [afterEvent, hnone, List.append_nil, Function.update_eq_self]
    split <;> rfl
  have hk : KeepsTraps s.dbg (s.afterEvent ev).dbg := keepsTraps_handleEvent hev
  refine ⟨hcalls, ⟨fun c => ?_, fun t ht => ?_, h.stopped.distinct⟩, h.silent.handleEvent ev,
    fun u hu => ?_, fun u hu => ?_⟩
  · rw [hk.fails]
    exact h.stopped.reliable c
  · exact (hk.ip t.tid).trans (h.stopped.ip t ht)
  · rw [hcalls]
    exact h.free u hu
  · obtain ⟨a, ha, hone, haddress, hip⟩ := h.reported u hu
    rw [hcalls]
    exact ⟨a, hk.listed a ha, hone, haddress, fun hout => (hk.ip u).trans (hip hout)⟩

theorem Tallied.step (h : s.Tallied) (hstep : Restrict ArrivalStep InTurn s turn s') :
    s'.Tallied := by
  obtain ⟨hstep, hturn⟩ := hstep
  cases hstep with
  | run hfree _ hruns => exact h.ran hfree hruns
  | trap hfree _ => exact h.trapped hfree
  | handle info hmem _ => exact h.handled hmem info hturn
  | event _ hev => exact (h.event hev).2

/-! ## Which turns keep the reports exact -/

theorem Exact.of_same (h : s.Exact) (hexecuted : s'.executed = s.executed)
    (hcalls : s'.calls = s.calls) : s'.Exact := by
  refine ⟨?_, fun tid => ?_⟩
  · rw [hexecuted]
    exact h.executed
  · rw [hcalls]
    exact h.standing tid

theorem Exact.ran_iff (h : s.Exact) (ht : s.Tallied) {tid : DWORD} (os : Os b)
    (hfree : tid ∉ s.queue.map Trap.tid) :
    (s.ran tid os).Exact ↔ s.InTurn (.run tid os) := by
  have hstanding : ∀ u, ((s.ran tid os).calls u).length ≤ 1 := by
    intro u
    change (Function.update s.calls tid [] u).length ≤ 1
    by_cases hut : u = tid
    · rw [hut, Function.update_self]
      exact Nat.zero_le 1
    · rw [Function.update_of_ne hut]
      exact h.standing u
  have hcalls := ht.calls_eq_iff hfree
  constructor
  · intro hexact ha
    refine hcalls.mp (hexact.executed (s.ip tid, s.calls tid) ?_)
    simp only [Arrivals.ran, if_pos ha]
    exact List.mem_append_right _ (List.mem_singleton_self _)
  · intro hturn
    refine ⟨fun x hx => ?_, hstanding⟩
    simp only [Arrivals.ran] at hx
    split_ifs at hx with ha
    · rcases List.mem_append.mp hx with hold | hnew
      · exact h.executed x hold
      · rw [List.mem_singleton.mp hnew]
        exact hcalls.mpr (hturn ha)
    · exact h.executed x hx

theorem Exact.handled_iff (h : s.Exact) (ht : s.Tallied) (t : Trap b)
    (info : DWORD_PTR b × DWORD_PTR b) :
    (s.afterHandling t info).Exact ↔ s.InTurn (.handle t info) := by
  have hcalls := ht.calls_handled t info
  by_cases ha : t.address ∈ s.dbg.breakpoints
  · rw [if_pos ha] at hcalls
    constructor
    · intro hexact _ hmem
      obtain ⟨a, -, hone, -⟩ := ht.reported t.tid hmem
      have htwice := hexact.standing t.tid
      rw [hcalls, Function.update_self, hone] at htwice
      simp at htwice
    · intro hturn
      refine ⟨h.executed, fun u => ?_⟩
      rw [hcalls]
      by_cases hu : u = t.tid
      · rw [hu, Function.update_self, ht.free t.tid (hturn ha)]
        exact Nat.le_refl 1
      · rw [Function.update_of_ne hu]
        exact h.standing u
  · rw [if_neg ha, List.append_nil, Function.update_eq_self] at hcalls
    exact iff_of_true (h.of_same rfl hcalls) (fun hlisted => absurd hlisted ha)

theorem Exact.step_iff (h : s.Exact) (ht : s.Tallied) (hstep : ArrivalStep s turn s') :
    s'.Exact ↔ s.InTurn turn := by
  cases hstep with
  | run hfree _ _ => exact h.ran_iff ht _ hfree
  | trap _ _ => exact iff_of_true (h.of_same rfl rfl) trivial
  | handle info _ _ => exact h.handled_iff ht _ info
  | event _ hev => exact iff_of_true (h.of_same rfl (ht.event hev).1) trivial

end Arrivals

open Arrivals

/-- In every run in which each thread steps over a listed address only after its own hit,
and hits there once, each arrival is reported exactly once; and from every state of such a
run, the next turn keeps this up exactly if it meets the condition. -/
theorem arrivals_reported_once {d : Debugger b} {s : Arrivals b} {turns : List (ArrivalTurn b)}
    (hr : d.os.Reliable) (hstepping : d.stepping = false)
    (hrun : Run (Restrict ArrivalStep InTurn) (start d) turns s) :
    s.Exact ∧ ∀ turn s', ArrivalStep s turn s' → (s'.Exact ↔ s.InTurn turn) := by
  have hstart : (start d).Exact := ⟨List.forall_mem_nil _, fun _ => Nat.zero_le 1⟩
  have hkeep (s : Arrivals b) (turn : ArrivalTurn b) (s' : Arrivals b)
      (h : s.Exact ∧ s.Tallied) (hstep : Restrict ArrivalStep InTurn s turn s') :
      s'.Exact ∧ s'.Tallied :=
    ⟨(h.1.step_iff h.2 hstep.1).mpr hstep.2, h.2.step hstep⟩
  obtain ⟨hexact, htallied⟩ := hrun.invariant hkeep ⟨hstart, .start hr hstepping⟩
  exact ⟨hexact, fun turn s' hstep => hexact.step_iff htallied hstep⟩

def Arrivals.nop (s : Arrivals b) (tid : DWORD) : Os b :=
  s.dbg.os.withContext tid { s.dbg.os.context tid with Ip := s.ip tid + 1 }

theorem Arrivals.runs_nop {s : Arrivals b} (h : s.dbg.os.Reliable) (tid : DWORD) :
    s.Runs tid (s.nop tid) := by
  refine ⟨h, fun u hu => ?_⟩
  rw [nop, Os.context_withContext, Function.update_of_ne hu]
  rfl

/-- The only thread hits the breakpoint it stands at and steps over it. -/
theorem arrivals_reported_once_alone :
    let d : Debugger .x64 := (new (.ofCode (fun _ => 0x90) [7])).setBreakpoint 0
    let s := ((start d).stopped 7).afterHandling ⟨7, 0, true⟩ (0, 0)
    (s.ran 7 (s.nop 7)).executed = [(0, [0])] ∧ (s.ran 7 (s.nop 7)).Exact := by
  intro d s
  have hreliable : d.os.Reliable := fun _ => rfl
  have htrap : ArrivalStep (start d) (.trap 7) ((start d).stopped 7) := by
    refine .trap (by decide) ?_
    unfold Armed
    decide
  have hhandle : ArrivalStep ((start d).stopped 7) (.handle ⟨7, 0, true⟩ (0, 0)) s :=
    .handle (0, 0) (by decide) (by decide)
  have htallied : s.Tallied :=
    ((Tallied.start hreliable rfl).trapped (by decide)).handled (by decide) (0, 0)
      (fun _ => Finset.notMem_empty 7)
  have hbyte : ¬ s.dbg.Armed (s.ip 7) := by
    unfold Armed
    decide +kernel
  have hrun : ArrivalStep s (.run 7 (s.nop 7)) (s.ran 7 (s.nop 7)) :=
    .run (by decide +kernel) hbyte (runs_nop htallied.stopped.reliable 7)
  have hturns : Run (Restrict ArrivalStep InTurn) (start d) _ (s.ran 7 (s.nop 7)) :=
    .cons ⟨htrap, trivial⟩ (.cons ⟨hhandle, fun _ => Finset.notMem_empty 7⟩
      (.cons ⟨hrun, fun _ => by decide +kernel⟩ (.nil _)))
  exact ⟨by decide +kernel, (arrivals_reported_once hreliable rfl hturns).1⟩

/-- Thread 7 hits the breakpoint, and thread 8 passes it while the int3 is out. -/
theorem passing_thread_not_reported :
    let d : Debugger .x64 := (new (.ofCode (fun _ => 0x90) [7, 8])).setBreakpoint 0
    ∃ turns s, Run ArrivalStep (start d) turns s ∧ (0, []) ∈ s.executed ∧ ¬ s.Exact := by
  intro d
  let s := ((start d).stopped 7).afterHandling ⟨7, 0, true⟩ (0, 0)
  have hreliable : d.os.Reliable := fun _ => rfl
  have htrap : ArrivalStep (start d) (.trap 7) ((start d).stopped 7) := by
    refine .trap (by decide) ?_
    unfold Armed
    decide
  have hhandle : ArrivalStep ((start d).stopped 7) (.handle ⟨7, 0, true⟩ (0, 0)) s :=
    .handle (0, 0) (by decide) (by decide)
  have htallied : s.Tallied :=
    ((Tallied.start hreliable rfl).trapped (by decide)).handled (by decide) (0, 0)
      (fun _ => Finset.notMem_empty 7)
  have hbyte : ¬ s.dbg.Armed (s.ip 8) := by
    unfold Armed
    decide +kernel
  have hrun : ArrivalStep s (.run 8 (s.nop 8)) (s.ran 8 (s.nop 8)) :=
    .run (by decide +kernel) hbyte (runs_nop htallied.stopped.reliable 8)
  have hpassed : (0, []) ∈ (s.ran 8 (s.nop 8)).executed := by decide +kernel
  refine ⟨_, _, .cons htrap (.cons hhandle (.cons hrun (.nil _))), hpassed, fun hexact => ?_⟩
  cases hexact.executed _ hpassed

/-- Both threads hit the breakpoint, and the step of thread 7 puts the int3 back before
thread 8 has run. -/
theorem overtaken_thread_reported_twice :
    let d : Debugger .x64 := (new (.ofCode (fun _ => 0x90) [7, 8])).setBreakpoint 0
    ∃ turns s, Run ArrivalStep (start d) turns s ∧ s.calls 8 = [0, 0] := by
  intro d
  let s := ((start d).stopped 7).stopped 8
  let s₁ := (s.afterHandling ⟨7, 0, true⟩ (0, 0)).afterHandling ⟨8, 0, true⟩ (0, 0)
  let s₂ := (s₁.ran 7 (s₁.nop 7)).afterEvent (.EXCEPTION ⟨EXCEPTION_SINGLE_STEP, 1, 7, 0, 0⟩)
  let s₃ := (s₂.stopped 8).afterHandling ⟨8, 0, true⟩ (0, 0)
  have htrap : ArrivalStep (start d) (.trap 7) ((start d).stopped 7) := by
    refine .trap (by decide) ?_
    unfold Armed
    decide
  have htrap₁ : ArrivalStep ((start d).stopped 7) (.trap 8) s := by
    refine .trap (by decide) ?_
    unfold Armed
    decide +kernel
  have hhandle : ArrivalStep s (.handle ⟨7, 0, true⟩ (0, 0))
      (s.afterHandling ⟨7, 0, true⟩ (0, 0)) :=
    .handle (0, 0) (by decide +kernel) (by decide +kernel)
  have hhandle₁ : ArrivalStep (s.afterHandling ⟨7, 0, true⟩ (0, 0))
      (.handle ⟨8, 0, true⟩ (0, 0)) s₁ :=
    .handle (0, 0) (by decide +kernel) (by decide +kernel)
  have hstart : (start d).toQueued.Stopped := (Tallied.start (fun _ => rfl) rfl).stopped
  have hstopped : s₁.toQueued.Stopped :=
    (((hstart.trapped 0 (by decide)).trapped 0 (by decide)).handled _ (by decide) (0, 0)).handled _
      (by decide +kernel) (0, 0)
  have hbyte : ¬ s₁.dbg.Armed (s₁.ip 7) := by
    unfold Armed
    decide +kernel
  have hrun : ArrivalStep s₁ (.run 7 (s₁.nop 7)) (s₁.ran 7 (s₁.nop 7)) :=
    .run (by decide +kernel) hbyte (runs_nop hstopped.reliable 7)
  have hevent : ArrivalStep (s₁.ran 7 (s₁.nop 7))
      (.event (.EXCEPTION ⟨EXCEPTION_SINGLE_STEP, 1, 7, 0, 0⟩)) s₂ := by
    refine .event (by decide +kernel) (fun e he => ?_)
    cases he
    decide
  have htrap₂ : ArrivalStep s₂ (.trap 8) (s₂.stopped 8) := by
    refine .trap (by decide +kernel) ?_
    unfold Armed
    decide +kernel
  have hhandle₂ : ArrivalStep (s₂.stopped 8) (.handle ⟨8, 0, true⟩ (0, 0)) s₃ :=
    .handle (0, 0) (by decide +kernel) (by decide +kernel)
  exact ⟨_, s₃, .cons htrap (.cons htrap₁ (.cons hhandle (.cons hhandle₁ (.cons hrun
    (.cons hevent (.cons htrap₂ (.cons hhandle₂ (.nil _)))))))), by decide +kernel⟩

end RoboDbg
