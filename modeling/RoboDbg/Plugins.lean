import RoboDbg.Freezer
import RoboDbg.ProcessHandle

/-!
# Plugins of a session

`initPlugins` runs at the end of each `start` and `attach` that succeeds. The `Imports`
object gets `hProcessGlobal` itself, the `Freezer` object a duplicate that it closes when it
is replaced. The duplicate has to outlive `hProcessGlobal`, which is closed in several
places; as values are given out again after they have been closed, it can be closed as well.
-/

namespace RoboDbg

open Runs

variable {b : Build}

namespace Freezer

/-- The constructor. `DuplicateHandle` is refused or gives another handle to the process. -/
def construct (process : HANDLE) (duplicates : Bool) (sys : Processes) : Freezer × Processes :=
  match if duplicates then sys.handles.lookup process else none with
  | none => (⟨0, 0⟩, sys)
  | some pid =>
    let dup := sys.handles.next
    (⟨dup, if dup ≠ 0 then pid else 0⟩, { sys with handles := sys.handles.insert pid })

def destroy (fz : Freezer) (sys : Processes) : Processes :=
  if fz.isValid then sys.closeHandle fz.process_ else sys

def release (old : Option Freezer) (sys : Processes) : Processes :=
  match old with
  | none => sys
  | some fz => fz.destroy sys

end Freezer

/-- A session with its plugins and the process of the last call that returned 0. -/
structure Plugged (b : Build) where
  session : Session b
  /-- `hProcess_` of the `Imports` object. -/
  imports : Option HANDLE
  freezer : Option Freezer
  target : Option DWORD

namespace Plugged

/-- The new `Freezer` is there before the old one goes. -/
def initPlugins (duplicates : Bool) (w : Plugged b) : Plugged b × Bool :=
  let process := w.session.hProcessGlobal
  if process = 0 then (w, false)
  else
    let r := Freezer.construct process duplicates w.session.sys
    ({ w with
      session := { w.session with sys := Freezer.release w.freezer r.2 }
      imports := some process
      freezer := some r.1 }, true)

def begin (r : Session b × ℤ) (pid : DWORD) (duplicates : Bool) (w : Plugged b) : Plugged b :=
  if r.2 = 0 then (initPlugins duplicates { w with session := r.1, target := some pid }).1
  else { w with session := r.1 }

/-- A move; `duplicates` if `DuplicateHandle` is granted in it. -/
def after (w : Plugged b) (m : Move b) (duplicates : Bool) : Plugged b :=
  let s := w.session
  match m with
  | .start exeName => w.begin (s.start exeName) s.sys.nextProcessId duplicates
  | .startWith exeName args => w.begin (s.startWith exeName args) s.sys.nextProcessId duplicates
  | .attach pid => w.begin (s.attach pid) pid duplicates
  | .attachName exeName =>
    w.begin (s.attachName exeName) (Util.findProcessId exeName s.sys) duplicates
  | m => { w with session := s.after m }

/-- Nobody else closes the handle of the freezer, and no handle is null. -/
def Allows (w : Plugged b) (m : Move b) : Prop :=
  w.session.Allows m ∧ match m with
    | .system sys => sys.handles.alloc = w.session.sys.handles.alloc ∧
        ∀ fz ∈ w.freezer, sys.handles.lookup fz.process_ =
          w.session.sys.handles.lookup fz.process_
    | _ => True

end Plugged

def PluggedStep (w : Plugged b) (m : Move b × Bool) (w' : Plugged b) : Prop :=
  w.Allows m.1 ∧ w' = w.after m.1 m.2

namespace Plugged

/-- The handle of a valid freezer is open, is its own, and stands for the process of the last
`start` or `attach` that returned 0. The imports plugin has the handle of the object. -/
structure Follows (w : Plugged b) : Prop where
  alloc : ∀ es, w.session.sys.handles.alloc es ≠ 0
  live : ∀ fz ∈ w.freezer, fz.isValid →
    w.session.sys.handles.lookup fz.process_ = some fz.pid_ ∧ w.target = some fz.pid_
  apart : ∀ fz ∈ w.freezer, fz.isValid → fz.process_ ≠ w.session.hProcessGlobal
  imports : ∀ h ∈ w.imports, w.session.hProcessGlobal = h ∨ w.session.hProcessGlobal = 0

/-- `hThreadGlobal` does not have the value of the freezer's handle. -/
def Clean (w : Plugged b) : Prop :=
  ∀ fz ∈ w.freezer, fz.isValid → w.session.hThreadGlobal ≠ fz.process_

/-- The end of `loop` does not close the handle of the freezer for `hThreadGlobal`. -/
def KeepsFreezer (w : Plugged b) (m : Move b × Bool) : Prop := m.1.Leaves → w.Clean

/-- An `attach` finds no `hThreadGlobal` that has been closed. -/
def FindsThread (w : Plugged b) (m : Move b × Bool) : Prop :=
  match m.1 with
  | .attach _ => w.session.hThreadGlobal = 0 ∨
      w.session.sys.handles.lookup w.session.hThreadGlobal ≠ none
  | .attachName _ => w.session.hThreadGlobal = 0 ∨
      w.session.sys.handles.lookup w.session.hThreadGlobal ≠ none
  | _ => True

end Plugged

/-! ## What a move does to the handles -/

namespace Session

variable {s s' : Session b} {pid : DWORD}

/-- At most these handles are closed, and the members keep them, or the process handle is
cleared. -/
structure Sheds (closed : HANDLE → Prop) (s s' : Session b) : Prop where
  alloc : s'.sys.handles.alloc = s.sys.handles.alloc
  lookup : ∀ h, ¬ closed h → s'.sys.handles.lookup h = s.sys.handles.lookup h
  thread : s'.hThreadGlobal = s.hThreadGlobal
  process : s'.hProcessGlobal = s.hProcessGlobal ∨ s'.hProcessGlobal = 0

structure Opened (s s' : Session b) (pid : DWORD) : Prop where
  alloc : s'.sys.handles.alloc = s.sys.handles.alloc
  kept : s.sys.handles.Extends s'.sys.handles
  fresh : ∃ es, s'.hProcessGlobal = s.sys.handles.alloc es
  process : s'.sys.handles.lookup s'.hProcessGlobal = some pid

theorem startProcess_opened (s : Session b) (commandLine : Text) :
    let r := s.startProcess commandLine
    (r.2 = 0 ∧ Opened s r.1 s.sys.nextProcessId ∧
        r.1.sys.handles.lookup r.1.hThreadGlobal ≠ none) ∨ (r.2 ≠ 0 ∧ r.1 = s) := by
  dsimp only
  have hrefusal : (-1 : ℤ) ≠ 0 := by decide
  by_cases hrefused : s.sys.fails (.createProcessA commandLine) = true ∨
      s.sys.nextProcessId ∈ s.sys.debugged
  · have hstart : s.startProcess commandLine = (s, -1) := by
      simp only [startProcess, Processes.createProcessA, if_pos hrefused]
    rw [hstart]
    exact Or.inr ⟨hrefusal, rfl⟩
  · let handles := s.sys.handles.insert s.sys.nextProcessId
    have hstart : s.startProcess commandLine =
        ({ s with
          hProcessGlobal := s.sys.handles.next
          hThreadGlobal := handles.next
          sys := { s.sys with
            debugged := insert s.sys.nextProcessId s.sys.debugged
            handles := handles.insert s.sys.nextThreadId }
          uses := [] }, 0) := by
      simp only [startProcess, Processes.createProcessA, if_neg hrefused]
      rfl
    have hopened : handles.lookup s.sys.handles.next = some s.sys.nextProcessId :=
      HandleTable.lookup_insert_next _ _
    have hthread : (handles.insert s.sys.nextThreadId).lookup handles.next ≠ none := by
      rw [HandleTable.lookup_insert_next]
      exact Option.some_ne_none _
    rw [hstart]
    refine Or.inl ⟨rfl, ⟨rfl, ?_, ⟨_, rfl⟩, HandleTable.extends_insert _ _ _ _ hopened⟩, hthread⟩
    exact (HandleTable.extends_insert _ _).trans (HandleTable.extends_insert _ _)

theorem attach_opened (s : Session b) (pid : DWORD) :
    let r := s.attach pid
    (r.2 = 0 ∧ Opened s r.1 pid ∧ r.1.hThreadGlobal = s.hThreadGlobal) ∨
      (r.2 ≠ 0 ∧ Sheds (fun _ => False) s r.1) := by
  dsimp only
  have hrefusal : (-1 : ℤ) ≠ 0 := by decide
  obtain ⟨-, hattach⟩ | ⟨-, -, -, ⟨-, hattach⟩ | ⟨-, hattach⟩⟩ := s.attach_cases pid
  · rw [hattach]
    exact Or.inr ⟨hrefusal, rfl, fun _ _ => rfl, rfl, Or.inl rfl⟩
  · rw [hattach]
    exact Or.inr ⟨hrefusal, rfl, fun _ _ => rfl, rfl, Or.inr rfl⟩
  · rw [hattach]
    exact Or.inl ⟨rfl, ⟨rfl, HandleTable.extends_insert _ _, ⟨_, rfl⟩,
      HandleTable.lookup_insert_next _ _⟩, rfl⟩

theorem Sheds.of_same {closed : HANDLE → Prop} (hsys : s'.sys.handles = s.sys.handles)
    (hthread : s'.hThreadGlobal = s.hThreadGlobal)
    (hprocess : s'.hProcessGlobal = s.hProcessGlobal) : Sheds closed s s' := by
  refine ⟨?_, fun h _ => ?_, hthread, Or.inl hprocess⟩
  · rw [hsys]
  · rw [hsys]

theorem closeProcess_sheds (hsys : s'.sys.handles = s.sys.handles.close s.hProcessGlobal)
    (hthread : s'.hThreadGlobal = s.hThreadGlobal)
    (hprocess : s'.hProcessGlobal = s.hProcessGlobal) {closed : HANDLE → Prop}
    (hclosed : closed s.hProcessGlobal) : Sheds closed s s' := by
  refine ⟨?_, fun h hh => ?_, hthread, Or.inl hprocess⟩
  · rw [hsys]
    rfl
  · have hne : h ≠ s.hProcessGlobal := fun heq => hh (heq ▸ hclosed)
    rw [hsys, HandleTable.lookup_close hne]

theorem passIf_sys (passes : Bool) (s : Session b) : (s.passIf passes).sys = s.sys ∧
    (s.passIf passes).hThreadGlobal = s.hThreadGlobal ∧
    (s.passIf passes).hProcessGlobal = s.hProcessGlobal := by
  cases passes <;> exact ⟨rfl, rfl, rfl⟩

theorem answer_sheds (s : Session b) (bpType : BreakpointAction) {closed : HANDLE → Prop} :
    Sheds closed s (s.answer bpType) := by
  unfold answer
  cases s.phase with
  | outside => exact .of_same rfl rfl rfl
  | waiting => exact .of_same rfl rfl rfl
  | callback ev hThread c =>
    obtain ⟨hsys, hthread, hprocess⟩ := s.passIf_sys (Debugger.completePasses ev c bpType)
    have hhandles := congrArg Processes.handles hsys
    cases ev with
    | EXIT_PROCESS _ _ => exact .of_same hhandles hthread hprocess
    | _ => exact .of_same hhandles hthread hprocess

theorem leave_sheds (s : Session b) {closed : HANDLE → Prop} (hprocess : closed s.hProcessGlobal)
    (hthread : closed s.hThreadGlobal) : Sheds closed s s.leave := by
  refine ⟨rfl, fun h hh => ?_, rfl, Or.inl rfl⟩
  have hne : h ≠ s.hThreadGlobal := fun heq => hh (heq ▸ hthread)
  have hne' : h ≠ s.hProcessGlobal := fun heq => hh (heq ▸ hprocess)
  change ((s.sys.handles.close s.hProcessGlobal).close s.hThreadGlobal).lookup h = _
  rw [HandleTable.lookup_close hne, HandleTable.lookup_close hne']

theorem detach_sheds (s : Session b) {closed : HANDLE → Prop} : Sheds closed s s.detach.1 := by
  rcases s.detach_cases with ⟨-, hdetach⟩ | ⟨-, hdetach⟩
  · rw [hdetach]
    exact .of_same rfl rfl rfl
  · rw [hdetach]
    exact .of_same rfl rfl rfl

theorem exit_sheds (s : Session b) {closed : HANDLE → Prop} (hclosed : closed s.hProcessGlobal) :
    Sheds closed s s.exit.1 := by
  obtain ⟨-, hexit⟩ | ⟨-, -, hexit⟩ | ⟨-, -, -, hexit⟩ | ⟨-, -, -, hexit⟩ := s.exit_cases
  · rw [hexit]
    exact .of_same rfl rfl rfl
  · rw [hexit]
    exact .of_same rfl rfl rfl
  · rw [hexit]
    exact .of_same rfl rfl rfl
  · rw [hexit]
    refine closeProcess_sheds ?_ ?_ ?_ hclosed
    all_goals rfl

theorem injectDLL_sheds (s : Session b) (pDllPath : LPVOID b) (dllPath : Text)
    {closed : HANDLE → Prop} (hclosed : closed s.hProcessGlobal) :
    Sheds closed s (s.injectDLL pDllPath dllPath).1 := by
  obtain ⟨-, hsame⟩ | ⟨-, n, os, hfailed⟩ | ⟨-, -, n, os, hpassed⟩ :=
    s.injectDLL_cases pDllPath dllPath
  · rw [hsame]
    exact .of_same rfl rfl rfl
  · rw [hfailed, passTimes_eq]
    refine closeProcess_sheds ?_ ?_ ?_ hclosed
    all_goals rfl
  · rw [hpassed, passTimes_eq]
    exact .of_same rfl rfl rfl

end Session

/-! ## Steps -/

namespace Plugged

open Session

variable {w : Plugged b} {s' : Session b} {pid : DWORD} {duplicates : Bool}
  {closed : HANDLE → Prop} {r : Session b × ℤ}

theorem Follows.sheds (h : w.Follows) (hs : Sheds closed w.session s')
    (hother : ∀ fz ∈ w.freezer, fz.isValid → ¬ closed fz.process_) :
    Follows { w with session := s' } := by
  refine ⟨?_, fun fz hfz hvalid => ?_, fun fz hfz hvalid => ?_, fun x hx => ?_⟩
  · change ∀ es, s'.sys.handles.alloc es ≠ 0
    rw [hs.alloc]
    exact h.alloc
  · change s'.sys.handles.lookup _ = _ ∧ _
    rw [hs.lookup _ (hother fz hfz hvalid)]
    exact h.live fz hfz hvalid
  · change fz.process_ ≠ s'.hProcessGlobal
    rcases hs.process with hsame | hzero
    · rw [hsame]
      exact h.apart fz hfz hvalid
    · rw [hzero]
      simpa [Freezer.isValid] using hvalid
  · change s'.hProcessGlobal = x ∨ s'.hProcessGlobal = 0
    rcases hs.process with hsame | hzero
    · rw [hsame]
      exact h.imports x hx
    · exact Or.inr hzero

theorem Clean.of_thread (hclean : w.Clean) (hthread : s'.hThreadGlobal = w.session.hThreadGlobal) :
    Clean { w with session := s' } := by
  intro fz hfz hvalid
  change s'.hThreadGlobal ≠ _
  rw [hthread]
  exact hclean fz hfz hvalid

theorem construct_cases (duplicates : Bool) {process : HANDLE} {sys : Processes}
    (hopen : sys.handles.lookup process = some pid) :
    let r := Freezer.construct process duplicates sys
    (r.1.isValid = false ∧ r.2 = sys) ∨ (r.1.process_ = sys.handles.next ∧
      (sys.handles.next ≠ 0 → r.1.pid_ = pid) ∧
      r.2 = { sys with handles := sys.handles.insert pid }) := by
  unfold Freezer.construct
  cases duplicates with
  | false => exact Or.inl ⟨rfl, rfl⟩
  | true =>
    simp only [if_true, hopen]
    exact Or.inr ⟨trivial, fun hne => if_pos hne, trivial⟩

theorem release_lookup {old : Option Freezer} {sys : Processes} {h : HANDLE}
    (hne : ∀ fz ∈ old, fz.isValid → h ≠ fz.process_) :
    (Freezer.release old sys).handles.lookup h = sys.handles.lookup h := by
  cases old with
  | none => rfl
  | some fz =>
    unfold Freezer.release Freezer.destroy
    dsimp only
    split_ifs with hvalid
    · exact HandleTable.lookup_close (hne fz rfl hvalid)
    · rfl

theorem release_alloc (old : Option Freezer) (sys : Processes) :
    (Freezer.release old sys).handles.alloc = sys.handles.alloc := by
  cases old with
  | none => rfl
  | some fz =>
    unfold Freezer.release Freezer.destroy
    dsimp only
    split_ifs <;> rfl

/-- What a plugin setup leaves alone, and the handle of the new freezer. -/
structure Renewed (w w' : Plugged b) (pid : DWORD) : Prop where
  imports : w'.imports = some w.session.hProcessGlobal
  target : w'.target = w.target
  process : w'.session.hProcessGlobal = w.session.hProcessGlobal
  thread : w'.session.hThreadGlobal = w.session.hThreadGlobal
  alloc : w'.session.sys.handles.alloc = w.session.sys.handles.alloc
  freezer : ∀ fz ∈ w'.freezer, fz.isValid → fz.process_ = w.session.sys.handles.next ∧
    fz.pid_ = pid ∧ w'.session.sys.handles.lookup fz.process_ = some pid

theorem initPlugins_renewed (hnull : w.session.hProcessGlobal ≠ 0)
    (hopen : w.session.sys.handles.lookup w.session.hProcessGlobal = some pid)
    (hold : ∀ fz ∈ w.freezer, fz.isValid →
      w.session.sys.handles.lookup fz.process_ ≠ none) :
    Renewed w (w.initPlugins duplicates).1 pid := by
  unfold initPlugins
  simp only [if_neg hnull]
  obtain ⟨hinvalid, hsys⟩ | ⟨hprocess, hpid, hsys⟩ :=
    construct_cases duplicates hopen
  · refine ⟨rfl, rfl, rfl, rfl, ?_, fun fz hfz hvalid => ?_⟩
    · change (Freezer.release w.freezer _).handles.alloc = _
      rw [release_alloc, hsys]
    · obtain rfl := Option.some.inj hfz
      rw [hinvalid] at hvalid
      cases hvalid
  · refine ⟨rfl, rfl, rfl, rfl, ?_, fun fz hfz hvalid => ?_⟩
    · change (Freezer.release w.freezer _).handles.alloc = _
      rw [release_alloc, hsys]
      rfl
    · obtain rfl := Option.some.inj hfz
      have hnext : w.session.sys.handles.next ≠ 0 := by
        rw [← hprocess]
        simpa [Freezer.isValid] using hvalid
      refine ⟨hprocess, hpid hnext, ?_⟩
      change (Freezer.release w.freezer _).handles.lookup _ = _
      rw [release_lookup, hprocess, hsys]
      · exact HandleTable.lookup_insert_next _ _
      · intro old hmem holdvalid heq
        apply hold old hmem holdvalid
        rw [← heq, hprocess]
        exact HandleTable.lookup_next _

theorem Follows.renewed (h : w.Follows) (duplicates : Bool) (hopened : Opened w.session r.1 pid) :
    let w₁ : Plugged b := { w with session := r.1, target := some pid }
    Renewed w₁ (w₁.initPlugins duplicates).1 pid := by
  obtain ⟨es, hfresh⟩ := hopened.fresh
  have hnull : r.1.hProcessGlobal ≠ 0 := by
    rw [hfresh]
    exact h.alloc es
  refine initPlugins_renewed hnull hopened.process (fun fz hfz hvalid => ?_)
  change r.1.sys.handles.lookup fz.process_ ≠ none
  rw [hopened.kept _ _ (h.live fz hfz hvalid).1]
  exact Option.some_ne_none _

theorem Follows.begin (h : w.Follows)
    (hr : (r.2 = 0 ∧ Opened w.session r.1 pid) ∨
      (r.2 ≠ 0 ∧ Sheds (fun _ => False) w.session r.1)) :
    (w.begin r pid duplicates).Follows := by
  unfold Plugged.begin
  rcases hr with ⟨hok, hopened⟩ | ⟨hfailed, hsheds⟩
  · rw [if_pos hok]
    have hnew := h.renewed duplicates hopened
    refine ⟨?_, fun fz hfz hvalid => ?_, fun fz hfz hvalid heq => ?_, fun x hx => Or.inl ?_⟩
    · rw [hnew.alloc]
      change ∀ es, r.1.sys.handles.alloc es ≠ 0
      rw [hopened.alloc]
      exact h.alloc
    · obtain ⟨-, hpid, hlookup⟩ := hnew.freezer fz hfz hvalid
      rw [hpid]
      exact ⟨hlookup, hnew.target⟩
    · obtain ⟨hprocess, -, -⟩ := hnew.freezer fz hfz hvalid
      have hlookup : r.1.sys.handles.lookup r.1.sys.handles.next = some pid := by
        rw [← hopened.process]
        exact congrArg _ ((hprocess.symm.trans heq).trans hnew.process)
      rw [HandleTable.lookup_next] at hlookup
      cases hlookup
    · rw [hnew.imports] at hx
      rw [hnew.process]
      exact Option.some.inj hx
  · rw [if_neg hfailed]
    exact h.sheds hsheds (fun _ _ _ => id)

theorem Clean.begin (hclean : w.Clean) (h : w.Follows)
    (hr : (r.2 = 0 ∧ Opened w.session r.1 pid ∧ (r.1.hThreadGlobal = 0 ∨
        r.1.sys.handles.lookup r.1.hThreadGlobal ≠ none)) ∨
      (r.2 ≠ 0 ∧ r.1.hThreadGlobal = w.session.hThreadGlobal)) :
    (w.begin r pid duplicates).Clean := by
  unfold Plugged.begin
  rcases hr with ⟨hok, hopened, hthread⟩ | ⟨hfailed, hthread⟩
  · rw [if_pos hok]
    have hnew := h.renewed duplicates hopened
    intro fz hfz hvalid heq
    obtain ⟨hprocess, -, -⟩ := hnew.freezer fz hfz hvalid
    rw [hnew.thread] at heq
    rcases hthread with hzero | hopen
    · have hnull : fz.process_ = 0 := heq.symm.trans hzero
      simp [Freezer.isValid, hnull] at hvalid
    · apply hopen
      have hsame : r.1.hThreadGlobal = r.1.sys.handles.next := heq.trans hprocess
      rw [hsame]
      exact HandleTable.lookup_next _
  · rw [if_neg hfailed]
    exact hclean.of_thread hthread

def Closing (w : Plugged b) (m : Move b) (h : HANDLE) : Prop :=
  h = w.session.hProcessGlobal ∨ (m.Leaves ∧ h = w.session.hThreadGlobal)

theorem Follows.keeps (h : w.Follows) {m : Move b × Bool} (hkeeps : w.KeepsFreezer m)
    (hs : Sheds (w.Closing m.1) w.session s') : Follows { w with session := s' } := by
  refine h.sheds hs (fun fz hfz hvalid hclosed => ?_)
  rcases hclosed with hprocess | ⟨hleaves, hthread⟩
  · exact h.apart fz hfz hvalid hprocess
  · exact hkeeps hleaves fz hfz hvalid hthread.symm

/-- A loop that ends with `hThreadGlobal` at the value of the freezer's handle closes it. -/
theorem Follows.clean_of_leave (h : Follows { w with session := w.session.leave }) : w.Clean := by
  intro fz hfz hvalid heq
  have hopen := (h.live fz hfz hvalid).1
  change ((w.session.sys.handles.close w.session.hProcessGlobal).close
    w.session.hThreadGlobal).lookup fz.process_ = _ at hopen
  rw [← heq, HandleTable.lookup_close_self] at hopen
  cases hopen

theorem Follows.start (h : w.Follows) (commandLine : Text) :
    (w.begin (w.session.startProcess commandLine) w.session.sys.nextProcessId duplicates).Follows := by
  apply h.begin
  obtain ⟨hok, hopened, -⟩ | ⟨hfailed, hsame⟩ := w.session.startProcess_opened commandLine
  · exact Or.inl ⟨hok, hopened⟩
  · rw [hsame]
    exact Or.inr ⟨hsame ▸ hfailed, .of_same rfl rfl rfl⟩

theorem Follows.attach (h : w.Follows) (pid : DWORD) :
    (w.begin (w.session.attach pid) pid duplicates).Follows := by
  apply h.begin
  obtain ⟨hok, hopened, -⟩ | hfailed := w.session.attach_opened pid
  · exact Or.inl ⟨hok, hopened⟩
  · exact Or.inr hfailed

theorem Follows.step (h : w.Follows) {m : Move b × Bool} (hallowed : w.Allows m.1) :
    (w.after m.1 m.2).Follows ↔ w.KeepsFreezer m := by
  obtain ⟨m, duplicates⟩ := m
  constructor
  · rintro h' (hm | hm)
    · obtain rfl : m = .waitFails := hm
      exact h'.clean_of_leave
    · obtain rfl : m = .leave := hm
      exact h'.clean_of_leave
  · intro hkeeps
    cases m with
    | start exeName => exact h.start exeName
    | startWith exeName args => exact h.start (commandLine exeName args)
    | attach pid => exact h.attach pid
    | attachName exeName => exact h.attach (Util.findProcessId exeName w.session.sys)
    | loop => exact h.keeps hkeeps (.of_same rfl rfl rfl)
    | detach => exact h.keeps hkeeps w.session.detach_sheds
    | exit => exact h.keeps hkeeps (w.session.exit_sheds (Or.inl rfl))
    | injectDLL pDllPath dllPath =>
      exact h.keeps hkeeps (w.session.injectDLL_sheds pDllPath dllPath (Or.inl rfl))
    | operation op =>
      obtain ⟨hsys, hthread, hglobal⟩ := w.session.passIf_sys (op.passes w.session.dbg)
      exact h.keeps hkeeps (.of_same (congrArg Processes.handles hsys) hthread hglobal)
    | memory os => exact h.keeps hkeeps (.of_same rfl rfl rfl)
    | event ev =>
      obtain ⟨hsys, hthread, hglobal⟩ := w.session.passIf_sys (w.session.dbg.arrivePasses ev)
      exact h.keeps hkeeps (.of_same (congrArg Processes.handles hsys) hthread hglobal)
    | answer bpType => exact h.keeps hkeeps (w.session.answer_sheds bpType)
    | waitFails =>
      exact h.keeps hkeeps (w.session.leave_sheds (Or.inl rfl) (Or.inr ⟨Or.inl rfl, rfl⟩))
    | leave =>
      exact h.keeps hkeeps (w.session.leave_sheds (Or.inl rfl) (Or.inr ⟨Or.inr rfl, rfl⟩))
    | debuggee os => exact h.keeps hkeeps (.of_same rfl rfl rfl)
    | system sys =>
      obtain ⟨-, halloc, hlookup⟩ := hallowed
      let others : HANDLE → Prop := fun x =>
        sys.handles.lookup x ≠ w.session.sys.handles.lookup x
      have hs : Sheds others w.session { w.session with sys := sys } :=
        ⟨halloc, fun _ => not_not.mp, rfl, Or.inl rfl⟩
      exact h.sheds hs (fun fz hfz _ hchanged => hchanged (hlookup fz hfz))

theorem Clean.start (hclean : w.Clean) (h : w.Follows) (commandLine : Text) :
    (w.begin (w.session.startProcess commandLine) w.session.sys.nextProcessId duplicates).Clean := by
  apply hclean.begin h
  obtain ⟨hok, hopened, hthread⟩ | ⟨hfailed, hsame⟩ := w.session.startProcess_opened commandLine
  · exact Or.inl ⟨hok, hopened, Or.inr hthread⟩
  · rw [hsame]
    exact Or.inr ⟨hsame ▸ hfailed, rfl⟩

theorem Clean.attach (hclean : w.Clean) (h : w.Follows) {pid : DWORD}
    (hfinds : w.session.hThreadGlobal = 0 ∨
      w.session.sys.handles.lookup w.session.hThreadGlobal ≠ none) :
    (w.begin (w.session.attach pid) pid duplicates).Clean := by
  apply hclean.begin h
  obtain ⟨hok, hopened, hthread⟩ | ⟨hfailed, hsheds⟩ := w.session.attach_opened pid
  · refine Or.inl ⟨hok, hopened, ?_⟩
    rw [hthread]
    refine hfinds.imp_right (fun hopen hnone => hopen ?_)
    exact hopened.kept.lookup_none hnone
  · exact Or.inr ⟨hfailed, hsheds.thread⟩

theorem Clean.step (hclean : w.Clean) (h : w.Follows) {m : Move b × Bool}
    (hfinds : w.FindsThread m) : (w.after m.1 m.2).Clean := by
  have hany : ∀ {s' : Session b}, Sheds (fun _ => True) w.session s' →
      s'.hThreadGlobal = w.session.hThreadGlobal := fun hs => hs.thread
  obtain ⟨m, duplicates⟩ := m
  cases m with
  | start exeName => exact hclean.start h exeName
  | startWith exeName args => exact hclean.start h (commandLine exeName args)
  | attach pid => exact hclean.attach h hfinds
  | attachName exeName => exact hclean.attach h hfinds
  | loop => exact hclean.of_thread rfl
  | detach => exact hclean.of_thread (hany w.session.detach_sheds)
  | exit => exact hclean.of_thread (hany (w.session.exit_sheds trivial))
  | injectDLL pDllPath dllPath =>
    exact hclean.of_thread (hany (w.session.injectDLL_sheds pDllPath dllPath trivial))
  | operation op => exact hclean.of_thread (w.session.passIf_sys _).2.1
  | memory os => exact hclean.of_thread rfl
  | event ev => exact hclean.of_thread (w.session.passIf_sys _).2.1
  | answer bpType => exact hclean.of_thread (hany (w.session.answer_sheds bpType))
  | waitFails => exact hclean.of_thread rfl
  | leave => exact hclean.of_thread rfl
  | debuggee os => exact hclean.of_thread rfl
  | system sys => exact hclean.of_thread rfl

structure Fresh (w : Plugged b) : Prop where
  alloc : ∀ es, w.session.sys.handles.alloc es ≠ 0
  imports : w.imports = none
  freezer : w.freezer = none

theorem Fresh.follows (h : w.Fresh) : w.Follows := by
  refine ⟨h.alloc, ?_, ?_, ?_⟩
  all_goals simp [h.freezer, h.imports]

end Plugged

open Plugged

/-- In every run the handle of a valid freezer is open and stands for the process of the last
`start` or `attach` that returned 0, also after `hProcessGlobal` has been closed, as long as
no end of `loop` closes it for a `hThreadGlobal` that has been closed before; and from every
state of such a run, the next move keeps it so exactly if it does not do that. It never
happens if each `attach` finds a `hThreadGlobal` that is null or open. -/
theorem freezer_keeps_process {b : Build} {w w' : Plugged b} {moves : List (Move b × Bool)}
    (hstart : w.Fresh) :
    (Run (Restrict PluggedStep KeepsFreezer) w moves w' →
      w'.Follows ∧ ∀ m w'', PluggedStep w' m w'' → (w''.Follows ↔ w'.KeepsFreezer m)) ∧
    (Run (Restrict PluggedStep FindsThread) w moves w' → w'.Follows) := by
  constructor
  · intro hrun
    have hinv : w'.Follows := by
      apply hrun.invariant ?_ hstart.follows
      rintro w m w' h ⟨⟨hallowed, rfl⟩, hkeeps⟩
      exact (h.step hallowed).mpr hkeeps
    refine ⟨hinv, ?_⟩
    rintro m w'' ⟨hallowed, rfl⟩
    exact hinv.step hallowed
  · intro hrun
    have hclean : w.Clean := by
      intro fz hfz
      rw [hstart.freezer] at hfz
      cases hfz
    have hstep : ∀ (w : Plugged b) m w', w.Follows ∧ w.Clean →
        Restrict PluggedStep FindsThread w m w' → w'.Follows ∧ w'.Clean := by
      rintro w m w' ⟨h, hclean⟩ ⟨⟨hallowed, rfl⟩, hfinds⟩
      exact ⟨(h.step hallowed).mpr (fun _ => hclean), hclean.step h hfinds⟩
    exact (hrun.invariant hstep ⟨hstart.follows, hclean⟩).1

/-- A process is started without a duplicate and its loop ends; then another one is attached
to, and the duplicate gets the value that is left in `hThreadGlobal`. -/
theorem freezer_keeps_process_stale :
    let dbg : Debugger .x64 := .new (.ofCode (fun _ => 0x90) [])
    let w₀ : Plugged .x64 := ⟨.ofDebugger dbg 0 (.idle 9 []), none, none, none⟩
    let w₁ := w₀.after (.start (literal "a.exe")) false
    let w₂ := (w₁.after .loop true).after .waitFails true
    let w := (w₂.after (.attach 7) true).after .loop true
    w.Follows ∧ ¬ (w.after .waitFails true).Follows := by
  intro dbg w₀ w₁ w₂ w
  have hstart : w₀.Fresh := ⟨fun _ => Nat.succ_ne_zero _, rfl, rfl⟩
  have hnot : ∀ {w : Plugged .x64} {m : Move .x64 × Bool}, ¬ m.1.Leaves → w.KeepsFreezer m :=
    fun hm hleaves => absurd hleaves hm
  have hkeeps : (w₁.after .loop true).KeepsFreezer (.waitFails, true) := by
    intro _ fz hfz hvalid
    obtain rfl := Option.some.inj hfz
    cases hvalid
  have hrun : Run (Restrict PluggedStep KeepsFreezer) w₀
      [(.start (literal "a.exe"), false), (.loop, true), (.waitFails, true), (.attach 7, true),
        (.loop, true)] w := by
    refine .cons ⟨⟨⟨rfl, trivial⟩, rfl⟩, hnot ?_⟩ (.cons ⟨⟨⟨rfl, trivial⟩, rfl⟩, hnot ?_⟩
      (.cons ⟨⟨⟨⟨rfl, rfl⟩, trivial⟩, rfl⟩, hkeeps⟩ (.cons ⟨⟨⟨rfl, trivial⟩, rfl⟩, hnot ?_⟩
        (.single ⟨⟨⟨rfl, trivial⟩, rfl⟩, hnot ?_⟩))))
    all_goals
      rintro (hm | hm)
      · cases hm
      · cases hm
  obtain ⟨hfollows, hnext⟩ := (freezer_keeps_process hstart).1 hrun
  refine ⟨hfollows, fun hafter => ?_⟩
  have hstep : PluggedStep w (.waitFails, true) (w.after .waitFails true) :=
    ⟨⟨⟨rfl, rfl⟩, trivial⟩, rfl⟩
  exact (hnext _ _ hstep).mp hafter (Or.inl rfl) ⟨2, 7⟩ rfl rfl rfl

end RoboDbg
