import RoboDbg.FailedOperations
import RoboDbg.Session

/-!
# What `detach` leaves behind

`detach` hands back a process that runs on without a debugger. It touches neither
memory nor threads, so that every int3 and every slot that is in place stays. Along
a run of sets, restores, events and answers the int3s written by `setBreakpoint` are
the only difference from the debuggee's own memory.
-/

namespace RoboDbg

variable {b : Build}

namespace Debugger

instance (d : Debugger b) (a : LPVOID b) : Decidable (d.Planted a) :=
  inferInstanceAs (Decidable (_ ∧ _))

/-- The debuggee leaves memory as in `os` and has not modified its own code: no byte at
which a breakpoint is listed or planted. -/
def Spares (os : Os b) (d : Debugger b) : Prop :=
  ∀ a, (os.memory.bytes a = d.os.memory.bytes a ∧ os.memory.writer a = d.os.memory.writer a) ∨
    (os.memory.writer a = .debuggee ∧ a ∉ d.breakpoints ∧ ¬ d.Planted a)

/-- A byte differs from `ref` only by an int3 that `setBreakpoint` has written, and the
table files bytes of `ref`. -/
structure Accounted (ref : LPVOID b → BYTE) (d : Debugger b) : Prop where
  bytes : ∀ a, d.os.memory.bytes a = ref a ∨ d.Planted a
  planted : ∀ a, d.Planted a → ref a ≠ int3
  filed : ∀ (a : LPVOID b) (x : BYTE), d.breakpoints[a]? = some x → x = ref a

variable {ref : LPVOID b → BYTE} {d d' : Debugger b} {a : LPVOID b}

theorem Accounted.bytes_ne_iff (h : Accounted ref d) (a : LPVOID b) :
    d.os.memory.bytes a ≠ ref a ↔ d.Planted a := by
  constructor
  · exact fun hne => (h.bytes a).resolve_left hne
  · intro hplanted heq
    apply h.planted a hplanted
    rw [← heq]
    exact hplanted.1

theorem Accounted.of_same (h : Accounted ref d) (hmem : d'.os.memory = d.os.memory)
    (hbps : d'.breakpoints = d.breakpoints) : Accounted ref d' := by
  have hplanted : ∀ a, d'.Planted a ↔ d.Planted a := by
    intro a
    rw [Planted, Planted, hmem]
  refine ⟨fun a => ?_, fun a ha => ?_, fun a x hx => ?_⟩
  · rw [hmem, hplanted]
    exact h.bytes a
  · exact h.planted a ((hplanted a).mp ha)
  · rw [hbps] at hx
    exact h.filed a x hx

theorem Accounted.drop (h : Accounted ref d) {bps : Std.TreeMap (LPVOID b) BYTE compare}
    (hsub : ∀ (a : LPVOID b) (x : BYTE), bps[a]? = some x → d.breakpoints[a]? = some x) :
    Accounted ref { d with breakpoints := bps } :=
  ⟨h.bytes, h.planted, fun a x hx => h.filed a x (hsub a x hx)⟩

/-! ## Writes of one byte -/

theorem writeByte_writer (who : Writer) (a c : LPVOID b) (x : BYTE) (d : Debugger b) :
    (d.writeByte who a x).os.memory.writer c =
      if c = a ∧ d.os.memory.writable a = true then who else d.os.memory.writer c := by
  rw [writeByte_memory]
  by_cases hw : d.os.memory.writable a = true
  · simp [hw, Function.update_apply]
  · simp [hw]

theorem writeByte_planted {who : Writer} {c : LPVOID b} {x : BYTE}
    (h : ¬ (c = a ∧ d.os.memory.writable a = true)) :
    (d.writeByte who a x).Planted c ↔ d.Planted c := by
  rw [Planted, Planted, writeByte_bytes, writeByte_writer, if_neg h, if_neg h]

theorem Accounted.arm (h : Accounted ref d) (ha : d.os.memory.bytes a ≠ int3) :
    Accounted ref (d.writeByte .setBreakpoint a int3) := by
  have href : d.os.memory.bytes a = ref a := (h.bytes a).resolve_right (fun hp => ha hp.1)
  refine ⟨fun c => ?_, fun c hc => ?_, fun c x hx => h.filed c x hx⟩
  · by_cases hlands : c = a ∧ d.os.memory.writable a = true
    · right
      rw [Planted, writeByte_bytes, writeByte_writer, if_pos hlands, if_pos hlands]
      exact ⟨rfl, rfl⟩
    · rw [writeByte_planted hlands, writeByte_bytes, if_neg hlands]
      exact h.bytes c
  · by_cases hlands : c = a ∧ d.os.memory.writable a = true
    · rw [hlands.1, ← href]
      exact ha
    · exact h.planted c ((writeByte_planted hlands).mp hc)

theorem Accounted.disarm (h : Accounted ref d) {x : BYTE} (hx : d.breakpoints[a]? = some x) :
    Accounted ref (d.writeByte .restoreBreakpoint a x) := by
  refine ⟨fun c => ?_, fun c hc => ?_, fun c y hy => h.filed c y hy⟩
  · by_cases hlands : c = a ∧ d.os.memory.writable a = true
    · left
      rw [writeByte_bytes, if_pos hlands, hlands.1]
      exact h.filed a x hx
    · rw [writeByte_planted hlands, writeByte_bytes, if_neg hlands]
      exact h.bytes c
  · by_cases hlands : c = a ∧ d.os.memory.writable a = true
    · have hwriter := hc.2
      rw [writeByte_writer, if_pos hlands] at hwriter
      cases hwriter
    · exact h.planted c ((writeByte_planted hlands).mp hc)

/-! ## Operations and events -/

theorem Accounted.setBreakpoint (h : Accounted ref d) (hread : d.os.memory.readable a = true) :
    Accounted ref (d.setBreakpoint a) := by
  have hbyte : (d.os.memory.readByte a).getD d.os.indeterminate = d.os.memory.bytes a := by
    rw [Memory.readByte, if_pos hread, Option.getD_some]
  unfold Debugger.setBreakpoint
  rw [hbyte]
  dsimp only
  split_ifs with ha
  · have href : d.os.memory.bytes a = ref a := (h.bytes a).resolve_right (fun hp => ha hp.1)
    have hfile : Accounted ref
        { d with breakpoints := d.breakpoints.insert a (d.os.memory.bytes a) } := by
      refine ⟨h.bytes, h.planted, fun c x hx => ?_⟩
      rw [Std.TreeMap.getElem?_insert] at hx
      split_ifs at hx with hc
      · rw [← Std.LawfulEqCmp.eq_of_compare hc, ← href]
        exact (Option.some.inj hx).symm
      · exact h.filed c x hx
    exact hfile.arm ha
  · exact h

theorem Accounted.restoreBreakpoint (h : Accounted ref d) (a : LPVOID b) :
    Accounted ref (d.restoreBreakpoint a) := by
  unfold Debugger.restoreBreakpoint
  cases hx : d.breakpoints[a]? with
  | none => exact h
  | some x =>
    dsimp only
    cases d.os.memory.readByte a with
    | none => exact h
    | some cur =>
      dsimp only
      split_ifs
      · exact h
      · exact h.disarm hx

theorem Accounted.edits (h : Accounted ref d)
    (hedits : Edits (fun m a => m.readable a = true) d d') : Accounted ref d' := by
  induction hedits with
  | refl => exact h
  | set _ a ha ih => exact ih.setBreakpoint ha
  | restore _ a ih => exact ih.restoreBreakpoint a
  | drop _ bps hsub ih => exact ih.drop hsub
  | aside _ d'' hmem hbps _ ih => exact ih.of_same hmem hbps

/-- What memory would hold without the int3s, after the debuggee has left it as in `os`. -/
def ranOn (os : Os b) (ref : LPVOID b → BYTE) (d : Debugger b) (a : LPVOID b) : BYTE :=
  if d.Planted a then ref a else os.memory.bytes a

theorem Accounted.debuggee (h : Accounted ref d) {os : Os b} (hos : d.Spares os) :
    Accounted (d.ranOn os ref) { d with os := os } := by
  have hkept : ∀ a, ({ d with os := os } : Debugger b).Planted a ↔ d.Planted a := by
    intro a
    rcases hos a with ⟨hbyte, hwriter⟩ | ⟨hwriter, -, hnot⟩
    · rw [Planted, Planted, hbyte, hwriter]
    · refine iff_of_false (fun hp => ?_) hnot
      rw [Planted, hwriter] at hp
      cases hp.2
  refine ⟨fun a => ?_, fun a ha => ?_, fun a x hx => ?_⟩
  · by_cases hp : d.Planted a
    · exact Or.inr ((hkept a).mpr hp)
    · exact Or.inl (if_neg hp).symm
  · have hp : d.Planted a := (hkept a).mp ha
    rw [ranOn, if_pos hp]
    exact h.planted a hp
  · rw [h.filed a x hx, ranOn]
    split_ifs with hp
    · rfl
    · rcases hos a with ⟨hbyte, -⟩ | ⟨-, hlisted, -⟩
      · rw [hbyte]
        exact ((h.bytes a).resolve_right hp).symm
      · have hmem : a ∈ d.breakpoints := Std.TreeMap.isSome_getElem?_iff_mem.mp (by rw [hx]; rfl)
        exact absurd hmem hlisted

end Debugger

open Debugger Runs

/-- A session with what the debuggee's memory would hold without int3s, and with the slots
that the debugger was the last to change. -/
structure Traced (b : Build) where
  session : Session b
  unpatched : LPVOID b → BYTE
  changed : Set (DWORD × Fin 4)

namespace Traced

def slot (s : Session b) (p : DWORD × Fin 4) : Option (Slot b) := s.dbg.slots p.1 p.2

def after (w : Traced b) (m : Move b) : Traced b :=
  let s := w.session.after m
  match m with
  | .debuggee os =>
    { session := s
      unpatched := w.session.dbg.ranOn os w.unpatched
      changed := {p | p ∈ w.changed ∧ slot s p = slot w.session p} }
  | _ =>
    { session := s
      unpatched := w.unpatched
      changed := {p | p ∈ w.changed ∨ slot s p ≠ slot w.session p} }

structure Untouched (w : Traced b) : Prop where
  breakpoints : ∀ a : LPVOID b, w.session.dbg.breakpoints[a]? = none
  planted : ∀ a, ¬ w.session.dbg.Planted a
  unpatched : w.unpatched = w.session.dbg.os.memory.bytes
  changed : w.changed = ∅

/-- In the threads of the debuggee, the slots that the debugger has changed are clear. -/
def SlotsReleased (w : Traced b) : Prop :=
  ∀ tid ∈ w.session.dbg.os.processThreads, ∀ i, (tid, i) ∈ w.changed →
    slot w.session (tid, i) = none

/-- The debuggee is as if it had never been debugged. -/
structure NoTrace (w : Traced b) : Prop where
  memory : ∀ a, w.session.dbg.os.memory.bytes a = w.unpatched a
  slots : w.SlotsReleased

/-- Everything has been taken back: no int3 of `setBreakpoint` is in memory any more. -/
structure TakenBack (w : Traced b) : Prop where
  memory : ∀ a, ¬ w.session.dbg.Planted a
  slots : w.SlotsReleased

end Traced

namespace Session

/-- What happens between `start` or `attach` and `detach` if the program and its callbacks use
the operations on breakpoints only, and the debuggee does not modify its own code. -/
def Concerns (s : Session b) : Move b → Prop
  | .start _ => False
  | .startWith _ _ => False
  | .attach _ => False
  | .attachName _ => False
  | .injectDLL _ _ => False
  | .memory _ => False
  | .debuggee os => s.dbg.Spares os
  | _ => True

/-- Breakpoints are set, and put back by a step, where memory can be read. -/
def SetsReadable (s : Session b) : Move b → Prop
  | .operation op => ∀ a, op.Sets a → s.dbg.os.memory.readable a = true
  | .event ev => s.dbg.Rearms ev → s.dbg.os.memory.readable s.dbg.bpAddrToRestore = true
  | _ => True

end Session

def TracedStep (w : Traced b) (m : Move b) (w' : Traced b) : Prop :=
  w.session.Allows m ∧ w.session.Concerns m ∧ w' = w.after m

namespace Session

variable {s : Session b} {ref : LPVOID b → BYTE}

theorem detach_same (s : Session b) :
    s.detach.1.dbg.os = s.dbg.os ∧ s.detach.1.dbg.breakpoints = s.dbg.breakpoints := by
  rcases s.detach_cases with ⟨-, hdetach⟩ | ⟨-, hdetach⟩
  · rw [hdetach]
    exact ⟨rfl, rfl⟩
  · rw [hdetach]
    exact ⟨rfl, rfl⟩

theorem accounted_answer (h : Accounted ref s.dbg) (bpType : BreakpointAction) :
    Accounted ref (s.answer bpType).dbg := by
  cases hphase : s.phase with
  | outside =>
    have hsame : s.answer bpType = s := by rw [answer, hphase]
    rwa [hsame]
  | waiting =>
    have hsame : s.answer bpType = s := by rw [answer, hphase]
    rwa [hsame]
  | callback ev hThread c =>
    have htraced : Accounted ref { s.dbg with trace := s.dbg.trace ++ [(c, bpType)] } :=
      h.of_same rfl rfl
    rw [(answer_of_callback hphase bpType).1]
    exact htraced.edits (complete_edits ev c bpType)

end Session

namespace Traced

variable {w w' : Traced b} {moves : List (Move b)}

theorem accounted_step {m : Move b} (h : Accounted w.unpatched w.session.dbg)
    (hconcerns : w.session.Concerns m) (hreadable : w.session.SetsReadable m) :
    Accounted (w.after m).unpatched (w.after m).session.dbg := by
  have hdetach : Accounted w.unpatched w.session.detach.1.dbg := by
    obtain ⟨hos, hbps⟩ := w.session.detach_same
    exact h.of_same (congrArg Os.memory hos) hbps
  cases m with
  | start exeName => exact hconcerns.elim
  | startWith exeName args => exact hconcerns.elim
  | attach pid => exact hconcerns.elim
  | attachName exeName => exact hconcerns.elim
  | injectDLL pDllPath dllPath => exact hconcerns.elim
  | memory os => exact hconcerns.elim
  | loop => exact h.of_same rfl rfl
  | detach => exact hdetach
  | exit =>
    change Accounted w.unpatched w.session.exit.1.dbg
    rw [w.session.exit_same.1]
    exact hdetach
  | operation op => exact h.edits (op.run_edits w.session.dbg hreadable)
  | event ev => exact h.edits (arrive_edits ev hreadable)
  | answer bpType => exact w.session.accounted_answer h bpType
  | waitFails => exact h
  | leave => exact h
  | debuggee os => exact h.debuggee hconcerns
  | system sys => exact h

theorem Untouched.accounted (h : w.Untouched) : Accounted w.unpatched w.session.dbg := by
  refine ⟨fun a => Or.inl ?_, fun a ha => absurd ha (h.planted a), fun a x hx => ?_⟩
  · rw [h.unpatched]
  · rw [h.breakpoints a] at hx
    cases hx

/-- The int3s of `setBreakpoint` are the only difference that a run makes. -/
theorem Untouched.run (hstart : w.Untouched)
    (hrun : Run (Restrict TracedStep (fun w => w.session.SetsReadable)) w moves w') :
    Accounted w'.unpatched w'.session.dbg := by
  have hstep : ∀ (w : Traced b) (m : Move b) (w' : Traced b),
      Accounted w.unpatched w.session.dbg →
        Restrict TracedStep (fun w => w.session.SetsReadable) w m w' →
          Accounted w'.unpatched w'.session.dbg := by
    rintro w m w' h ⟨⟨-, hconcerns, rfl⟩, hreadable⟩
    exact accounted_step h hconcerns hreadable
  exact hrun.invariant hstep hstart.accounted

theorem noTrace_detach_iff (w : Traced b) :
    (w.after .detach).NoTrace ↔
      (∀ a, w.session.dbg.os.memory.bytes a = w.unpatched a) ∧ w.SlotsReleased := by
  have hos : (w.after .detach).session.dbg.os = w.session.dbg.os := w.session.detach_same.1
  have hslots : ∀ p, slot (w.after .detach).session p = slot w.session p := by
    intro p
    rw [slot, slot, Debugger.slots, Debugger.slots, hos]
  have hchanged : (w.after .detach).changed = w.changed := by
    ext p
    exact or_iff_left (not_not.mpr (hslots p))
  have hreleased : (w.after .detach).SlotsReleased ↔ w.SlotsReleased := by
    rw [SlotsReleased, SlotsReleased, hos, hchanged]
    simp only [hslots]
  constructor
  · rintro ⟨hmemory, hslots⟩
    rw [hos] at hmemory
    exact ⟨hmemory, hreleased.mp hslots⟩
  · rintro ⟨hmemory, hslots⟩
    refine ⟨?_, hreleased.mpr hslots⟩
    rw [hos]
    exact hmemory

end Traced

open Traced

/-- After any run in which breakpoints are set at readable addresses only, `detach` leaves no
trace exactly if no int3 is planted and no slot is enabled when it is called. -/
theorem detach_leaves_no_trace {b : Build} {w w' : Traced b} {moves : List (Move b)}
    (hstart : w.Untouched)
    (hrun : Run (Restrict TracedStep (fun w => w.session.SetsReadable)) w moves w') :
    (w'.after .detach).NoTrace ↔ w'.TakenBack := by
  have haccounted := hstart.run hrun
  rw [noTrace_detach_iff]
  constructor
  · rintro ⟨hmemory, hslots⟩
    refine ⟨fun a hplanted => ?_, hslots⟩
    exact (haccounted.bytes_ne_iff a).mpr hplanted (hmemory a)
  · rintro ⟨hplanted, hslots⟩
    refine ⟨fun a => ?_, hslots⟩
    exact (haccounted.bytes a).resolve_right (hplanted a)

def Traced.attached : Traced .x64 where
  session := ((Session.ofDebugger (.new (.ofCode (fun _ => 0x90) [7])) 0 (.idle 9 [])).attach 1).1
  unpatched := fun _ => 0x90
  changed := ∅

/-- The breakpoint at 5 is set and its byte written back. -/
theorem detach_leaves_no_trace_restored :
    let w := attached.after (.operation (.setBreakpoint 5))
    let w' := w.after (.operation (.restoreBreakpoint 5))
    (w'.after .detach).NoTrace ↔ w'.TakenBack := by
  intro w w'
  have hstart : attached.Untouched := by
    refine ⟨fun a => rfl, fun a ha => ?_, rfl, rfl⟩
    cases ha.2
  have hphase : attached.session.phase = .outside := rfl
  have hset : Restrict TracedStep (fun w => w.session.SetsReadable) attached
      (.operation (.setBreakpoint 5)) w := by
    refine ⟨⟨?_, trivial, rfl⟩, fun a _ => rfl⟩
    rintro hwaiting
    rw [hphase] at hwaiting
    cases hwaiting
  have hrestore : Restrict TracedStep (fun w => w.session.SetsReadable) w
      (.operation (.restoreBreakpoint 5)) w' := by
    refine ⟨⟨?_, trivial, rfl⟩, fun a ha => ha.elim⟩
    rintro hwaiting
    cases hwaiting
  exact detach_leaves_no_trace hstart (.cons hset (.single hrestore))

/-- `setBreakpoint(5)` and `detach()`: the int3 stays in the process that runs on. And so
does a slot. -/
theorem detach_leaves_trace :
    let bp : HwBp .x64 := ⟨0, 9, .DR0, .EXECUTE, .BYTE⟩
    let setInt3 : Move .x64 := .operation (.setBreakpoint 5)
    let setSlot : Move .x64 := .operation (.hardware (.hardware (.setHardwareBreakpoint bp)))
    (∃ w, Run TracedStep attached [setInt3] w ∧ w.session.detach.2 = true ∧
        ¬ (w.after .detach).NoTrace) ∧
      ∃ w, Run TracedStep attached [setSlot] w ∧ w.session.detach.2 = true ∧
        ¬ (w.after .detach).NoTrace := by
  intro bp setInt3 setSlot
  have hallowed (op : Operation .x64) : TracedStep attached (.operation op)
      (attached.after (.operation op)) := by
    refine ⟨fun hwaiting => ?_, trivial, rfl⟩
    cases hwaiting
  refine ⟨⟨_, .single (hallowed _), ?_, fun h => ?_⟩, ⟨_, .single (hallowed _), ?_, fun h => ?_⟩⟩
  · decide +kernel
  · exact absurd (h.memory 5) (by decide +kernel)
  · decide +kernel
  · have hchanged : (7, 0) ∈ (attached.after setSlot).changed := Or.inr (by decide +kernel)
    have hclear := ((noTrace_detach_iff _).mp h).2 7 (by decide +kernel) 0 hchanged
    exact absurd hclear (by decide +kernel)

end RoboDbg
