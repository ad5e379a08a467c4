import RoboDbg.SlotMap

/-!
# Hardware breakpoints of the whole process

Process-wide operations touch debug registers, handles, the thread list and the
tracker only (`HwFrame`). When the system refuses no call, each of them changes
one slot of every thread of the process, and the two readers used by the event
loop return the first match in the order of the thread list.
-/

namespace RoboDbg

namespace Debugger

variable {b : Build}

/-- What no hardware-breakpoint operation changes. -/
structure HwFrame (d d' : Debugger b) : Prop where
  rest : d' = { d with
    os := { d.os with thread := d'.os.thread, handles := d'.os.handles }
    hwBreakpoints := d'.hwBreakpoints
    threads := d'.threads }
  ip : ∀ tid, (d'.os.context tid).Ip = (d.os.context tid).Ip
  eflags : ∀ tid, (d'.os.context tid).EFlags = (d.os.context tid).EFlags
  handles : d.os.handles.Extends d'.os.handles

namespace HwFrame

variable {d d' d'' : Debugger b}

theorem refl (d : Debugger b) : HwFrame d d :=
  ⟨rfl, fun _ => rfl, fun _ => rfl, .refl _⟩

theorem memory (h : HwFrame d d') : d'.os.memory = d.os.memory := by rw [h.rest]

theorem fails (h : HwFrame d d') : d'.os.fails = d.os.fails := by rw [h.rest]

theorem processThreads (h : HwFrame d d') : d'.os.processThreads = d.os.processThreads := by
  rw [h.rest]
  rfl

theorem breakpoints (h : HwFrame d d') : d'.breakpoints = d.breakpoints := by rw [h.rest]

theorem trace (h : HwFrame d d') : d'.trace = d.trace := by rw [h.rest]

theorem reliable (h : HwFrame d d') (hr : d.os.Reliable) : d'.os.Reliable := by
  intro c
  rw [h.fails]
  exact hr c

theorem trans (h : HwFrame d d') (h' : HwFrame d' d'') : HwFrame d d'' := by
  refine ⟨?_, fun tid => (h'.ip tid).trans (h.ip tid),
    fun tid => (h'.eflags tid).trans (h.eflags tid), h.handles.trans h'.handles⟩
  rw [h'.rest, h.rest]

theorem withThread (d : Debugger b) {tid : DWORD} {obj : ThreadObject b}
    (hip : obj.context.Ip = (d.os.context tid).Ip)
    (hfl : obj.context.EFlags = (d.os.context tid).EFlags)
    (tracked : Std.TreeMap (LPVOID b) (HwBp b) compare) :
    HwFrame d { d with os := d.os.withThread tid obj, hwBreakpoints := tracked } := by
  refine ⟨rfl, fun u => ?_, fun u => ?_, .refl _⟩
  · by_cases hu : u = tid
    · subst hu
      simp [Os.context, hip]
    · simp [Os.context, Os.withThread, Function.update_of_ne hu]
  · by_cases hu : u = tid
    · subst hu
      simp [Os.context, hfl]
    · simp [Os.context, Os.withThread, Function.update_of_ne hu]

theorem withContext (d : Debugger b) {tid : DWORD} {ctx : Context b}
    (hip : ctx.Ip = (d.os.context tid).Ip) (hfl : ctx.EFlags = (d.os.context tid).EFlags)
    (tracked : Std.TreeMap (LPVOID b) (HwBp b) compare) :
    HwFrame d { d with os := d.os.withContext tid ctx, hwBreakpoints := tracked } :=
  withThread d hip hfl tracked

theorem suspendThread {h : HANDLE} {os : Os b} (hs : d.os.suspendThread h = some os) :
    HwFrame d { d with os := os } := by
  obtain ⟨tid, -, -, rfl⟩ := Os.suspendThread_eq_some.mp hs
  refine withThread d ?_ ?_ d.hwBreakpoints <;> rfl

theorem resumeThread {h : HANDLE} {os : Os b} (hs : d.os.resumeThread h = some os) :
    HwFrame d { d with os := os } := by
  obtain ⟨tid, -, -, rfl⟩ := Os.resumeThread_eq_some.mp hs
  refine withThread d ?_ ?_ d.hwBreakpoints <;> rfl

theorem setThreadContext {h : HANDLE} {ctx : Context b} {os : Os b}
    (hs : d.os.setThreadContext .DEBUG_REGISTERS h ctx = some os) :
    HwFrame d { d with os := os } := by
  obtain ⟨tid, -, -, rfl⟩ := Os.setThreadContext_eq_some.mp hs
  refine withContext d ?_ ?_ d.hwBreakpoints <;> rfl

theorem track (d : Debugger b) (tracked : Std.TreeMap (LPVOID b) (HwBp b) compare) :
    HwFrame d { d with hwBreakpoints := tracked } :=
  ⟨rfl, fun _ => rfl, fun _ => rfl, .refl _⟩

theorem getD {o : Option (Os b)} (ho : ∀ os, o = some os → HwFrame d { d with os := os }) :
    HwFrame d { d with os := o.getD d.os } := by
  cases o with
  | none => exact refl d
  | some os => exact ho os rfl

end HwFrame

/-! ## Every operation stays within the frame, whatever the system refuses -/

theorem setHardwareBreakpointOnThread_frame (bp : HwBp b) (d : Debugger b) :
    HwFrame d (d.setHardwareBreakpointOnThread bp).1 := by
  unfold setHardwareBreakpointOnThread
  split_ifs
  · exact .refl d
  split
  · exact .refl d
  split
  · exact .refl d
  split
  · exact .refl d
  next os₁ h₁ =>
    have hf₁ : HwFrame d { d with os := os₁ } := .suspendThread h₁
    split
    · exact hf₁.trans (HwFrame.getD (d := { d with os := os₁ }) (fun os h => .resumeThread h))
    next os₂ h₂ =>
      have hf₂ : HwFrame d { d with os := os₂ } :=
        hf₁.trans (HwFrame.setThreadContext (d := { d with os := os₁ }) h₂)
      split
      · exact hf₂
      next os₃ h₃ =>
        have hf₃ : HwFrame d { d with os := os₃ } :=
          hf₂.trans (HwFrame.resumeThread (d := { d with os := os₂ }) h₃)
        exact hf₃.trans (.track { d with os := os₃ } _)

theorem clearHardwareBreakpointOnThread_frame (hThread : HANDLE) (reg : DRReg) (d : Debugger b) :
    HwFrame d (d.clearHardwareBreakpointOnThread hThread reg).1 := by
  unfold clearHardwareBreakpointOnThread
  split_ifs
  · exact .refl d
  split
  · exact .refl d
  next ctx hctx =>
    split
    · exact .refl d
    next os₁ h₁ =>
      have hf₁ : HwFrame d { d with os := os₁ } := .suspendThread h₁
      let os₂ := (os₁.setThreadContext .DEBUG_REGISTERS hThread (ctx.release reg)).getD os₁
      have hf₂ : HwFrame { d with os := os₁ } { d with os := os₂ } :=
        HwFrame.getD (d := { d with os := os₁ }) (fun os h => .setThreadContext h)
      have hf₃ : HwFrame { d with os := os₂ }
          { d with os := (os₂.resumeThread hThread).getD os₂ } :=
        HwFrame.getD (d := { d with os := os₂ }) (fun os h => .resumeThread h)
      obtain ⟨tracked, ht⟩ := untrack_eq hThread reg (ctx.drOf reg)
        { d with os := (os₂.resumeThread hThread).getD os₂ }
      change HwFrame d (untrack hThread reg (ctx.drOf reg)
        { d with os := (os₂.resumeThread hThread).getD os₂ })
      rw [ht]
      exact ((hf₁.trans hf₂).trans hf₃).trans
        (.track { d with os := (os₂.resumeThread hThread).getD os₂ } tracked)

def listing (tid : DWORD) (d : Debugger b) : Debugger b :=
  { d with
    os := { d.os with handles := d.os.handles.insert tid }
    threads := d.threads ++ [⟨d.os.handles.next, tid, 0, 0⟩] }

theorem openThreads_cons (tid : DWORD) (tids : List DWORD) (d : Debugger b) :
    d.openThreads (tid :: tids) =
      (if d.os.fails (.openThread tid) then d else d.listing tid).openThreads tids := by
  by_cases hf : d.os.fails (.openThread tid) = true
  · simp [openThreads, Os.openThread, hf]
  · simp [openThreads, Os.openThread, hf, listing]

theorem listing_frame (tid : DWORD) (d : Debugger b) : HwFrame d (d.listing tid) :=
  ⟨rfl, fun _ => rfl, fun _ => rfl, HandleTable.extends_insert _ _⟩

theorem openThreads_frame (tids : List DWORD) (d : Debugger b) :
    HwFrame d (d.openThreads tids) := by
  induction tids generalizing d with
  | nil => exact .refl d
  | cons tid tids ih =>
    rw [openThreads_cons]
    split_ifs
    · exact ih d
    · exact (listing_frame tid d).trans (ih _)

theorem actualizeThreadList_frame (d : Debugger b) : HwFrame d d.actualizeThreadList := by
  have hf : HwFrame d { d with threads := [] } := ⟨rfl, fun _ => rfl, fun _ => rfl, .refl _⟩
  simp only [actualizeThreadList]
  split_ifs
  · exact hf
  · exact hf
  · exact hf.trans (openThreads_frame _ _)

theorem forThreads_frame {op : Thread b → Debugger b → Debugger b × Bool}
    (hop : ∀ thread d, HwFrame d (op thread d).1) (threads : List (Thread b)) (d : Debugger b) :
    HwFrame d (forThreads op threads d).1 := by
  induction threads generalizing d with
  | nil => exact .refl d
  | cons thread threads ih => exact (hop thread d).trans (ih _)

theorem setHardwareBreakpoint_frame (bp : HwBp b) (d : Debugger b) :
    HwFrame d (d.setHardwareBreakpoint bp).1 := by
  unfold setHardwareBreakpoint
  have hf := actualizeThreadList_frame d
  split_ifs
  · exact hf
  · exact (hf.trans (actualizeThreadList_frame _)).trans
      (forThreads_frame (fun _ _ => setHardwareBreakpointOnThread_frame _ _) _ _)

theorem clearHardwareBreakpoint_frame (reg : DRReg) (d : Debugger b) :
    HwFrame d (d.clearHardwareBreakpoint reg).1 :=
  (actualizeThreadList_frame d).trans
    (forThreads_frame (fun _ _ => clearHardwareBreakpointOnThread_frame _ _ _) _ _)

/-! ## When a call succeeds -/

structure Puts (d d' : Debugger b) (tid : DWORD) (i : Fin 4) (s : Option (Slot b)) : Prop where
  frame : HwFrame d d'
  slots : d'.slots = d.slots.put tid i s
  handles : d'.os.handles = d.os.handles
  threads : d'.threads = d.threads

theorem puts_of_set {d : Debugger b} {bp : HwBp b} {tid : DWORD} {i : Fin 4}
    (hl : d.os.handles.lookup bp.hThread = some tid) (hreg : bp.reg = .ofSlot i)
    (hok : (d.setHardwareBreakpointOnThread bp).2 = true) :
    Puts d (d.setHardwareBreakpointOnThread bp).1 tid i (some ⟨bp.address, bp.type, bp.len⟩) := by
  obtain ⟨tid', ctx, hl', hassign, -, he⟩ := setHardwareBreakpointOnThread_true hok
  obtain rfl : tid = tid' := Option.some.inj (hl.symm.trans hl')
  obtain ⟨ctx', hctx', -, hip, hfl, -⟩ := (d.os.context tid).assign_eq hreg
  obtain rfl : ctx = ctx' := Option.some.inj (hassign.symm.trans hctx')
  rw [he]
  exact ⟨.withContext d hip hfl _, slots_withContext d tid ctx (Context.slot_assign hreg hassign),
    rfl, rfl⟩

theorem puts_of_clear {d : Debugger b} {hThread : HANDLE} {tid : DWORD} {i : Fin 4}
    (hl : d.os.handles.lookup hThread = some tid)
    (hok : (d.clearHardwareBreakpointOnThread hThread (.ofSlot i)).2 = true) :
    Puts d (d.clearHardwareBreakpointOnThread hThread (.ofSlot i)).1 tid i none := by
  obtain ⟨tid', j, tracked, hl', -, he⟩ := clearHardwareBreakpointOnThread_eq hok
  obtain rfl : tid = tid' := Option.some.inj (hl.symm.trans hl')
  obtain ⟨-, hip, hfl, -⟩ := (d.os.context tid).release_eq i
  rw [he]
  exact ⟨.withContext d hip hfl _,
    slots_withContext d tid _ (Context.slot_release (d.os.context tid) i), rfl, rfl⟩

theorem setHardwareBreakpointOnThread_puts {d : Debugger b} (bp : HwBp b) {tid : DWORD} {i : Fin 4}
    (hr : d.os.Reliable) (hl : d.os.handles.lookup bp.hThread = some tid)
    (hreg : bp.reg = .ofSlot i) (hlen : bp.type = .EXECUTE → bp.len = .BYTE) :
    (d.setHardwareBreakpointOnThread bp).2 = true ∧
      Puts d (d.setHardwareBreakpointOnThread bp).1 tid i
        (some ⟨bp.address, bp.type, bp.len⟩) := by
  have hok := setHardwareBreakpointOnThread_reliable hr hl hreg hlen
  exact ⟨hok, puts_of_set hl hreg hok⟩

theorem clearHardwareBreakpointOnThread_puts {d : Debugger b} {hThread : HANDLE} {tid : DWORD}
    (hr : d.os.Reliable) (hl : d.os.handles.lookup hThread = some tid) (i : Fin 4) :
    (d.clearHardwareBreakpointOnThread hThread (.ofSlot i)).2 = true ∧
      Puts d (d.clearHardwareBreakpointOnThread hThread (.ofSlot i)).1 tid i none := by
  have hok := clearHardwareBreakpointOnThread_reliable hr hl i
  exact ⟨hok, puts_of_clear hl hok⟩

/-! ## The thread list -/

def ThreadsOpen (d : Debugger b) : Prop :=
  ∀ thread ∈ d.threads, d.os.handles.lookup thread.hThread = some thread.threadId

theorem ThreadsOpen.listing {d : Debugger b} (hopen : d.ThreadsOpen) (tid : DWORD) :
    (d.listing tid).ThreadsOpen := by
  intro thread hmem
  rcases List.mem_append.mp hmem with hold | hnew
  · exact (listing_frame tid d).handles _ _ (hopen thread hold)
  · rw [List.mem_singleton.mp hnew]
    exact HandleTable.lookup_insert_next _ _

theorem mem_listing {d : Debugger b} {tid : DWORD} {thread : Thread b}
    (hmem : thread ∈ (d.listing tid).threads) :
    thread ∈ d.threads ∨ d.os.handles.lookup thread.hThread = none := by
  rcases List.mem_append.mp hmem with hold | hnew
  · exact Or.inl hold
  · rw [List.mem_singleton.mp hnew]
    exact Or.inr (HandleTable.lookup_next _)

theorem openThreads_opened (tids : List DWORD) {d : Debugger b} (hopen : d.ThreadsOpen) :
    (d.openThreads tids).os.thread = d.os.thread ∧ (d.openThreads tids).ThreadsOpen ∧
      (d.openThreads tids).threads.map (·.threadId) =
        d.threads.map (·.threadId) ++ tids.filter (fun tid => !d.os.fails (.openThread tid)) ∧
      ∀ thread ∈ (d.openThreads tids).threads,
        thread ∈ d.threads ∨ d.os.handles.lookup thread.hThread = none := by
  induction tids generalizing d with
  | nil => exact ⟨rfl, hopen, by simp [openThreads], fun _ h => Or.inl h⟩
  | cons tid tids ih =>
    rw [openThreads_cons]
    cases hf : d.os.fails (.openThread tid) with
    | true =>
      rw [if_pos rfl, List.filter_cons_of_neg (by simp [hf])]
      exact ih hopen
    | false =>
      obtain ⟨hthread, hop, hmap, hfresh⟩ := ih (hopen.listing tid)
      rw [if_neg Bool.false_ne_true, List.filter_cons_of_pos (by simp [hf])]
      refine ⟨hthread, hop, ?_, ?_⟩
      · rw [hmap]
        simp [listing]
      · intro thread hmem
        rcases hfresh thread hmem with hold | hnone
        · exact mem_listing hold
        · exact Or.inr ((listing_frame tid d).handles.lookup_none hnone)

/-- The threads that a refresh lists: those of the process that can be opened, if the
process can be asked for them. -/
def openable (d : Debugger b) : List DWORD :=
  if d.os.fails .getProcessId || d.os.fails .createToolhelp32Snapshot then []
  else d.os.processThreads.filter (fun tid => !d.os.fails (.openThread tid))

theorem openable_eq {d : Debugger b} (hr : d.os.Reliable) : d.openable = d.os.processThreads := by
  simp [openable, hr _]

theorem HwFrame.openable {d d' : Debugger b} (h : HwFrame d d') : d'.openable = d.openable := by
  simp only [Debugger.openable, h.fails, h.processThreads]

theorem actualizeThreadList_opened (d : Debugger b) :
    d.actualizeThreadList.os.thread = d.os.thread ∧ d.actualizeThreadList.ThreadsOpen ∧
      d.actualizeThreadList.threads.map (·.threadId) = d.openable ∧
      ∀ thread ∈ d.actualizeThreadList.threads, d.os.handles.lookup thread.hThread = none := by
  let d₀ : Debugger b := { d with threads := [] }
  have hnone : ∀ thread ∈ d₀.threads, d.os.handles.lookup thread.hThread = none :=
    fun thread hmem => by cases hmem
  have hopen : d₀.ThreadsOpen := fun thread hmem => by cases hmem
  by_cases hfail : (d.os.fails .getProcessId || d.os.fails .createToolhelp32Snapshot) = true
  · have he : d.actualizeThreadList = d₀ := by
      simp only [actualizeThreadList]
      split_ifs with h₁ h₂
      · rfl
      · rfl
      · simp [h₁, h₂] at hfail
    rw [he, openable, if_pos hfail]
    exact ⟨rfl, hopen, rfl, hnone⟩
  · have he : d.actualizeThreadList = d₀.openThreads d.os.processThreads := by
      simp only [Bool.or_eq_true, not_or] at hfail
      simp only [actualizeThreadList, if_neg hfail.1, if_neg hfail.2]
      rfl
    obtain ⟨hthread, hop, hmap, hfresh⟩ := openThreads_opened d.os.processThreads hopen
    rw [he, openable, if_neg hfail]
    exact ⟨hthread, hop, hmap, fun thread hmem => (hfresh thread hmem).elim (hnone thread) id⟩

/-! ## One slot of every thread -/

theorem forThreads_cons {op : Thread b → Debugger b → Debugger b × Bool} {thread : Thread b}
    {threads : List (Thread b)} {d : Debugger b}
    (hok : (forThreads op (thread :: threads) d).2 = true) :
    (op thread d).2 = true ∧ (forThreads op threads (op thread d).1).2 = true := by
  simpa only [forThreads, Bool.and_eq_true] using hok

theorem forThreads_puts {i : Fin 4} {s : Option (Slot b)}
    {op : Thread b → Debugger b → Debugger b × Bool}
    (hop : ∀ d thread tid, d.os.handles.lookup thread.hThread = some tid →
      (op thread d).2 = true → Puts d (op thread d).1 tid i s)
    (threads : List (Thread b)) {d : Debugger b}
    (hopen : ∀ thread ∈ threads, d.os.handles.lookup thread.hThread = some thread.threadId)
    (hok : (forThreads op threads d).2 = true) :
    (forThreads op threads d).1.os.handles = d.os.handles ∧
      (forThreads op threads d).1.threads = d.threads ∧
      ∀ tid, (forThreads op threads d).1.slots tid = if tid ∈ threads.map (·.threadId)
        then Function.update (d.slots tid) i s else d.slots tid := by
  induction threads generalizing d with
  | nil => exact ⟨rfl, rfl, fun tid => by simp [forThreads]⟩
  | cons thread threads ih =>
    obtain ⟨hfirst, hrest⟩ := forThreads_cons hok
    have hputs := hop d thread _ (hopen thread List.mem_cons_self) hfirst
    have hopen' : ∀ t ∈ threads,
        (op thread d).1.os.handles.lookup t.hThread = some t.threadId := by
      rw [hputs.handles]
      exact fun t ht => hopen t (List.mem_cons_of_mem _ ht)
    obtain ⟨hh, ht, hslots⟩ := ih hopen' hrest
    refine ⟨hh.trans hputs.handles, ht.trans hputs.threads, ?_⟩
    intro tid
    rw [forThreads, hslots tid, hputs.slots, SlotMap.put]
    by_cases htid : tid = thread.threadId
    · subst htid
      simp only [Function.update_self, Function.update_idem, List.map_cons, List.mem_cons, true_or,
        if_true, ite_self]
    · simp only [Function.update_of_ne htid, List.map_cons, List.mem_cons, htid, false_or]

/-- A process-wide operation: the thread list is refreshed, then slot `i` of the
threads `tids` that it lists holds `s`. -/
structure PutsIn (d d' : Debugger b) (tids : List DWORD) (i : Fin 4) (s : Option (Slot b)) :
    Prop where
  frame : HwFrame d d'
  threadsOpen : d'.ThreadsOpen
  threadIds : d'.threads.map (·.threadId) = tids
  fresh : ∀ thread ∈ d'.threads, d.os.handles.lookup thread.hThread = none
  slots : ∀ tid, d'.slots tid = if tid ∈ tids then Function.update (d.slots tid) i s
    else d.slots tid

theorem slots_eq_of_thread {d d' : Debugger b} (h : d'.os.thread = d.os.thread) :
    d'.slots = d.slots := by
  funext tid
  simp only [slots, Os.context, h]

theorem actualized_puts (op : Thread b → Debugger b → Debugger b × Bool) {i : Fin 4}
    {s : Option (Slot b)} {d : Debugger b} (hframe : ∀ thread d, HwFrame d (op thread d).1)
    (hop : ∀ d thread tid, d.os.handles.lookup thread.hThread = some tid →
      (op thread d).2 = true → Puts d (op thread d).1 tid i s)
    (hok : (forThreads op d.actualizeThreadList.threads d.actualizeThreadList).2 = true) :
    PutsIn d (forThreads op d.actualizeThreadList.threads d.actualizeThreadList).1
      d.openable i s := by
  have hf := actualizeThreadList_frame d
  obtain ⟨hthread, hopen, hids, hfresh⟩ := actualizeThreadList_opened d
  obtain ⟨hh, ht, hslots⟩ := forThreads_puts hop d.actualizeThreadList.threads hopen hok
  refine ⟨hf.trans (forThreads_frame hframe _ _), ?_, by rw [ht, hids], ?_, ?_⟩
  · unfold ThreadsOpen
    rw [ht, hh]
    exact hopen
  · rw [ht]
    exact hfresh
  · rw [slots_eq_of_thread hthread, hids] at hslots
    exact hslots

theorem clearHardwareBreakpoint_puts {d : Debugger b} {i : Fin 4}
    (hok : (d.clearHardwareBreakpoint (.ofSlot i)).2 = true) :
    PutsIn d (d.clearHardwareBreakpoint (.ofSlot i)).1 d.openable i none :=
  actualized_puts
    (fun thread d => d.clearHardwareBreakpointOnThread thread.hThread (.ofSlot i))
    (fun _ _ => clearHardwareBreakpointOnThread_frame _ _ _)
    (fun _ _ _ hl hok => puts_of_clear hl hok) hok

theorem setHardwareBreakpoint_eq {bp : HwBp b} {i : Fin 4} (hreg : bp.reg = .ofSlot i)
    (d : Debugger b) : d.setHardwareBreakpoint bp =
      let d := d.actualizeThreadList.actualizeThreadList
      forThreads (fun thread d =>
        d.setHardwareBreakpointOnThread { bp with hThread := thread.hThread }) d.threads d := by
  have hcheck : ¬ (bp.reg.toInt < 0 ∨ bp.reg.toInt > 3) := by
    rw [hreg]
    clear hreg
    revert i
    decide
  rw [setHardwareBreakpoint, if_neg hcheck]

theorem setHardwareBreakpoint_puts {d : Debugger b} {bp : HwBp b} {i : Fin 4}
    (hreg : bp.reg = .ofSlot i) (hok : (d.setHardwareBreakpoint bp).2 = true) :
    PutsIn d (d.setHardwareBreakpoint bp).1 d.openable i (some ⟨bp.address, bp.type, bp.len⟩) := by
  rw [setHardwareBreakpoint_eq hreg] at hok ⊢
  have hf := actualizeThreadList_frame d
  obtain ⟨hthread, -, -, -⟩ := actualizeThreadList_opened d
  have hset (d : Debugger b) (thread : Thread b) (tid : DWORD)
      (hl : d.os.handles.lookup thread.hThread = some tid)
      (hok : (d.setHardwareBreakpointOnThread { bp with hThread := thread.hThread }).2 = true) :
      Puts d (d.setHardwareBreakpointOnThread { bp with hThread := thread.hThread }).1 tid i
        (some ⟨bp.address, bp.type, bp.len⟩) := puts_of_set hl hreg hok
  have hputs := actualized_puts (d := d.actualizeThreadList) (i := i)
    (s := some ⟨bp.address, bp.type, bp.len⟩)
    (fun thread d => d.setHardwareBreakpointOnThread { bp with hThread := thread.hThread })
    (fun _ _ => setHardwareBreakpointOnThread_frame _ _) hset hok
  rw [hf.openable] at hputs
  refine ⟨hf.trans hputs.frame, hputs.threadsOpen, hputs.threadIds, ?_, ?_⟩
  · exact fun thread hmem => hf.handles.lookup_none (hputs.fresh thread hmem)
  · have hslots := hputs.slots
    rwa [slots_eq_of_thread hthread] at hslots

/-! ## When no call is refused -/

theorem forThreads_ok {i : Fin 4} {s : Option (Slot b)}
    {op : Thread b → Debugger b → Debugger b × Bool}
    (hop : ∀ d thread tid, d.os.Reliable → d.os.handles.lookup thread.hThread = some tid →
      (op thread d).2 = true ∧ Puts d (op thread d).1 tid i s)
    (threads : List (Thread b)) {d : Debugger b} (hr : d.os.Reliable)
    (hopen : ∀ thread ∈ threads, d.os.handles.lookup thread.hThread = some thread.threadId) :
    (forThreads op threads d).2 = true := by
  induction threads generalizing d with
  | nil => rfl
  | cons thread threads ih =>
    obtain ⟨hok, hputs⟩ := hop d thread _ hr (hopen thread List.mem_cons_self)
    have hopen' : ∀ t ∈ threads,
        (op thread d).1.os.handles.lookup t.hThread = some t.threadId := by
      rw [hputs.handles]
      exact fun t ht => hopen t (List.mem_cons_of_mem _ ht)
    simp only [forThreads, hok, ih (hputs.frame.reliable hr) hopen', Bool.and_self]

structure PutsAll (d d' : Debugger b) (i : Fin 4) (s : Option (Slot b)) : Prop where
  frame : HwFrame d d'
  threadsOpen : d'.ThreadsOpen
  threadIds : d'.threads.map (·.threadId) = d.os.processThreads
  fresh : ∀ thread ∈ d'.threads, d.os.handles.lookup thread.hThread = none
  slots : ∀ tid, d'.slots tid = if tid ∈ d.os.processThreads
    then Function.update (d.slots tid) i s else d.slots tid

theorem PutsIn.all {d d' : Debugger b} {i : Fin 4} {s : Option (Slot b)} (hr : d.os.Reliable)
    (h : PutsIn d d' d.openable i s) : PutsAll d d' i s := by
  rw [openable_eq hr] at h
  exact ⟨h.frame, h.threadsOpen, h.threadIds, h.fresh, h.slots⟩

theorem clearHardwareBreakpoint_putsAll {d : Debugger b} (hr : d.os.Reliable) (i : Fin 4) :
    (d.clearHardwareBreakpoint (.ofSlot i)).2 = true ∧
      PutsAll d (d.clearHardwareBreakpoint (.ofSlot i)).1 i none := by
  obtain ⟨-, hopen, -, -⟩ := actualizeThreadList_opened d
  have hok : (d.clearHardwareBreakpoint (.ofSlot i)).2 = true :=
    forThreads_ok (fun _ _ _ hr hl => clearHardwareBreakpointOnThread_puts hr hl i) _
      ((actualizeThreadList_frame d).reliable hr) hopen
  exact ⟨hok, (clearHardwareBreakpoint_puts hok).all hr⟩

theorem setHardwareBreakpoint_putsAll {d : Debugger b} {bp : HwBp b} {i : Fin 4}
    (hr : d.os.Reliable) (hreg : bp.reg = .ofSlot i) (hlen : bp.type = .EXECUTE → bp.len = .BYTE) :
    (d.setHardwareBreakpoint bp).2 = true ∧
      PutsAll d (d.setHardwareBreakpoint bp).1 i (some ⟨bp.address, bp.type, bp.len⟩) := by
  have hf := actualizeThreadList_frame d
  obtain ⟨-, hopen, -, -⟩ := actualizeThreadList_opened d.actualizeThreadList
  have hok : (d.setHardwareBreakpoint bp).2 = true := by
    rw [setHardwareBreakpoint_eq hreg]
    exact forThreads_ok (i := i) (s := some ⟨bp.address, bp.type, bp.len⟩)
      (fun _ thread _ hr hl => setHardwareBreakpointOnThread_puts
        { bp with hThread := thread.hThread } hr hl hreg hlen) _
      ((hf.trans (actualizeThreadList_frame _)).reliable hr) hopen
  exact ⟨hok, (setHardwareBreakpoint_puts hreg hok).all hr⟩

/-! ## The readers of the event loop -/

def SlotAt (context : DWORD → Context b) (tid : DWORD) (a : LPVOID b) (i : Fin 4) : Prop :=
  (context tid).enabled i = true ∧ (context tid).dr i = a

instance (context : DWORD → Context b) (tid : DWORD) (a : LPVOID b) (i : Fin 4) :
    Decidable (SlotAt context tid a i) :=
  inferInstanceAs (Decidable (_ ∧ _))

/-- Scanning the threads in order and each thread's slots in ascending order,
the first enabled slot with this address has number `i`. -/
def FirstSlotAt (context : DWORD → Context b) (a : LPVOID b) (i : Fin 4) : List DWORD → Prop
  | [] => False
  | tid :: tids =>
    (SlotAt context tid a i ∧ ∀ j < i, ¬ SlotAt context tid a j) ∨
      ((∀ j, ¬ SlotAt context tid a j) ∧ FirstSlotAt context a i tids)

theorem first_of_four {p : Fin 4 → Prop} [DecidablePred p] (reg : DRReg) (i : Fin 4) :
    (if p 0 then .DR0 else if p 1 then .DR1 else if p 2 then .DR2 else if p 3 then .DR3 else reg) =
        DRReg.ofSlot i ↔
      (p i ∧ ∀ j < i, ¬ p j) ∨ ((∀ j, ¬ p j) ∧ reg = .ofSlot i) := by
  by_cases h0 : p 0 <;> by_cases h1 : p 1 <;> by_cases h2 : p 2 <;> by_cases h3 : p 3 <;>
    fin_cases i <;>
    simp [h0, h1, h2, h3, Fin.forall_fin_succ, DRReg.ofSlot]

/-- The four masks of `isHardwareBreakpointAt` are the local-enable bits. -/
theorem enable_masks (ctx : Context b) :
    (ctx.Dr7 &&& 0x1 ≠ 0 ↔ ctx.enabled 0 = true) ∧ (ctx.Dr7 &&& 0x4 ≠ 0 ↔ ctx.enabled 1 = true) ∧
      (ctx.Dr7 &&& 0x10 ≠ 0 ↔ ctx.enabled 2 = true) ∧
      (ctx.Dr7 &&& 0x40 ≠ 0 ↔ ctx.enabled 3 = true) := by
  simp only [Context.enabled, decide_eq_true_eq]
  cases b <;> exact ⟨Iff.rfl, Iff.rfl, Iff.rfl, Iff.rfl⟩

/-- The threads that a list of handles denotes; closed handles denote none. -/
def denoted (os : Os b) (threads : List (Thread b)) : List DWORD :=
  threads.filterMap (fun thread => os.handles.lookup thread.hThread)

def listed (d : Debugger b) : List DWORD := denoted d.os d.threads

theorem isHardwareBreakpointIn_eq_ofSlot {os : Os b} (hr : os.Reliable) (threads : List (Thread b))
    (a : LPVOID b) (i : Fin 4) :
    isHardwareBreakpointIn os a threads = .ofSlot i ↔
      FirstSlotAt os.context a i (denoted os threads) := by
  induction threads with
  | nil => exact iff_of_false (fun h => DRReg.ofSlot_ne_NOP i h.symm) not_false
  | cons thread threads ih =>
    unfold denoted
    cases hl : os.handles.lookup thread.hThread with
    | none =>
      have hctx : os.getThreadContext .DEBUG_REGISTERS thread.hThread = none := by
        simp only [Os.getThreadContext, hl]
      rw [List.filterMap_cons, hl, isHardwareBreakpointIn, hctx]
      exact ih
    | some tid =>
      obtain ⟨h0, h1, h2, h3⟩ := enable_masks (os.context tid)
      rw [List.filterMap_cons, hl, isHardwareBreakpointIn, hr.getThreadContext hl]
      change _ ↔ FirstSlotAt os.context a i (tid :: denoted os threads)
      rw [FirstSlotAt, ← ih, ← first_of_four]
      simp only [Context.merge, h0, h1, h2, h3]
      rfl

theorem isHardwareBreakpointAt_eq_ofSlot {d : Debugger b} (hr : d.os.Reliable) (a : LPVOID b)
    (i : Fin 4) : d.isHardwareBreakpointAt a = .ofSlot i ↔ FirstSlotAt d.os.context a i d.listed :=
  isHardwareBreakpointIn_eq_ofSlot hr d.threads a i

theorem slot_eq_some {ctx : Context b} {i : Fin 4} {s : Slot b} (hs : ctx.slot i = some s) :
    ctx.enabled i = true ∧ s = ⟨ctx.dr i, .ofField (BitField.field ctx.Dr7 (16 + i.val * 4)),
      .ofField (BitField.field ctx.Dr7 (18 + i.val * 4))⟩ := by
  unfold Context.slot at hs
  split_ifs at hs with hen
  exact ⟨hen, (Option.some.inj hs).symm⟩

/-- `getBreakpointByReg` reads the slot of the first thread that has it enabled. -/
theorem getBreakpointByRegIn_first {os : Os b} (hr : os.Reliable) {threads : List (Thread b)}
    {i : Fin 4} {s : Slot b}
    (hfirst : (denoted os threads).findSome? (fun tid => (os.context tid).slot i) = some s) :
    ∃ h, getBreakpointByRegIn os (.ofSlot i) threads =
      ⟨h, s.address, .ofSlot i, s.type, s.len⟩ := by
  induction threads with
  | nil => cases hfirst
  | cons thread threads ih =>
    unfold denoted at hfirst
    cases hl : os.handles.lookup thread.hThread with
    | none =>
      have hctx : os.getThreadContext .DEBUG_REGISTERS thread.hThread = none := by
        simp only [Os.getThreadContext, hl]
      rw [List.filterMap_cons, hl] at hfirst
      rw [getBreakpointByRegIn, hctx]
      exact ih hfirst
    | some tid =>
      rw [List.filterMap_cons, hl, List.findSome?_cons] at hfirst
      rw [getBreakpointByRegIn, hr.getThreadContext hl]
      simp only [Context.merge, DRReg.toInt_ofSlot]
      cases hslot : (os.context tid).slot i with
      | none =>
        have hoff : ¬ (os.context tid).enabled i = true := by
          intro hen
          rw [Context.slot, if_pos hen] at hslot
          cases hslot
        rw [hslot] at hfirst
        simp only [Context.enabled, decide_eq_true_eq] at hoff
        rw [if_neg hoff]
        exact ih hfirst
      | some s' =>
        rw [hslot] at hfirst
        obtain rfl : s' = s := Option.some.inj hfirst
        obtain ⟨hen, rfl⟩ := slot_eq_some hslot
        simp only [Context.enabled, decide_eq_true_eq] at hen
        refine ⟨thread.hThread, ?_⟩
        rw [if_pos hen, if_neg (DRReg.ofSlot_ne_NOP i)]
        fin_cases i <;> rfl

theorem getBreakpointByReg_first {d : Debugger b} (hr : d.os.Reliable) {i : Fin 4} {s : Slot b}
    (hfirst : d.listed.findSome? (fun tid => d.slots tid i) = some s) :
    ∃ h, d.getBreakpointByReg (.ofSlot i) = ⟨h, s.address, .ofSlot i, s.type, s.len⟩ :=
  getBreakpointByRegIn_first hr hfirst

theorem getBreakpointByReg_eq {d : Debugger b} (hr : d.os.Reliable) (hne : d.listed ≠ [])
    {i : Fin 4} {s : Slot b} (hslot : ∀ tid ∈ d.listed, d.slots tid i = some s) :
    ∃ h, d.getBreakpointByReg (.ofSlot i) = ⟨h, s.address, .ofSlot i, s.type, s.len⟩ := by
  obtain ⟨tid, tids, hlisted⟩ := List.exists_cons_of_ne_nil hne
  apply getBreakpointByReg_first hr
  rw [hlisted, List.findSome?_cons, hslot tid (by rw [hlisted]; exact List.mem_cons_self)]

end Debugger
end RoboDbg
