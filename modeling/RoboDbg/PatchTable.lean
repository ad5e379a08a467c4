import RoboDbg.Breakpoints
import RoboDbg.Foundation.Overlay

/-!
# Patches can always be undone

Any sequence of `setBreakpoint`, `restoreBreakpoint`, `verifyBreakpoints` and
`writeMemory` is compared with the reference memory on which only the writes
act. The table of original bytes covers the difference at every moment, so
restoring the listed addresses in any order gives back the reference.
-/

namespace RoboDbg

open Overlay

inductive PatchOp (b : Build)
  | setBreakpoint (a : LPVOID b)
  | restoreBreakpoint (a : LPVOID b)
  | verifyBreakpoints
  | writeMemory (a : LPVOID b) (buffer : List BYTE)

namespace PatchOp

variable {b : Build}

def run (d : Debugger b) : PatchOp b → Debugger b
  | setBreakpoint a => d.setBreakpoint a
  | restoreBreakpoint a => d.restoreBreakpoint a
  | verifyBreakpoints => d.verifyBreakpoints.1
  | writeMemory a buffer => (d.writeMemory a buffer).1

def writeBytes (a : LPVOID b) : List BYTE → (LPVOID b → BYTE) → LPVOID b → BYTE
  | [], ref => ref
  | x :: xs, ref => writeBytes (a + 1) xs (Function.update ref a x)

/-- The reference memory sees `writeMemory` only. -/
def reference (ref : LPVOID b → BYTE) : PatchOp b → LPVOID b → BYTE
  | writeMemory a buffer => writeBytes a buffer ref
  | _ => ref

/-- The bytes written contain no int3. -/
def Clean : PatchOp b → Prop
  | writeMemory _ buffer => int3 ∉ buffer
  | _ => True

instance (op : PatchOp b) : Decidable op.Clean :=
  match op with
  | writeMemory _ buffer => inferInstanceAs (Decidable (int3 ∉ buffer))
  | setBreakpoint _ => .isTrue trivial
  | restoreBreakpoint _ => .isTrue trivial
  | verifyBreakpoints => .isTrue trivial

end PatchOp

namespace Debugger

variable {b : Build}

def table (d : Debugger b) (a : LPVOID b) : Option BYTE := d.breakpoints[a]?

structure Patched (ref : LPVOID b → BYTE) (d : Debugger b) : Prop where
  accessible : d.os.memory.Accessible
  covers : Covers int3 ref d.os.memory.bytes d.table

theorem table_insert (d : Debugger b) (a : LPVOID b) (x : BYTE) :
    (fun c => (d.breakpoints.insert a x)[c]?) = Function.update d.table a (some x) := by
  funext c
  by_cases hc : c = a
  · simp [hc]
  · simp [Std.TreeMap.getElem?_insert, Function.update_of_ne hc, table, Ne.symm hc]

variable {ref : LPVOID b → BYTE} {d : Debugger b}

theorem Patched.setBreakpoint (h : Patched ref d) (a : LPVOID b) :
    Patched ref (d.setBreakpoint a) := by
  by_cases ha : d.Armed a
  · rwa [setBreakpoint_of_armed h.accessible ha]
  · rw [setBreakpoint_of_not_armed h.accessible ha]
    refine ⟨h.accessible.store _ _ _, ?_⟩
    have hc := h.covers.arm ha
    rwa [← table_insert] at hc

theorem restoreBreakpoint_table (h : d.os.memory.Accessible) (a : LPVOID b) :
    (d.restoreBreakpoint a).table = d.table := by
  by_cases ha : d.Armed a
  · cases hx : d.breakpoints[a]? with
    | none => rw [restoreBreakpoint_of_not_listed hx]
    | some x => rw [restoreBreakpoint_of_armed h hx ha]; rfl
  · rw [restoreBreakpoint_of_not_armed h ha]

theorem restoreBreakpoint_bytes (h : d.os.memory.Accessible) (a : LPVOID b) :
    (d.restoreBreakpoint a).os.memory.bytes = undo int3 d.table d.os.memory.bytes a := by
  unfold undo
  cases hx : d.table a with
  | none => rw [restoreBreakpoint_of_not_listed hx]
  | some x =>
    by_cases ha : d.Armed a
    · have hb : d.os.memory.bytes a = int3 := ha
      rw [restoreBreakpoint_of_armed h hx ha]
      simp only [Memory.store_bytes, hb, if_true]
    · have hb : ¬ d.os.memory.bytes a = int3 := ha
      rw [restoreBreakpoint_of_not_armed h ha]
      simp only [hb, if_false]

theorem restoreBreakpoint_accessible (h : d.os.memory.Accessible) (a : LPVOID b) :
    (d.restoreBreakpoint a).os.memory.Accessible := by
  by_cases ha : d.Armed a
  · cases hx : d.breakpoints[a]? with
    | none => rwa [restoreBreakpoint_of_not_listed hx]
    | some x => rw [restoreBreakpoint_of_armed h hx ha]; exact h.store _ _ _
  · rwa [restoreBreakpoint_of_not_armed h ha]

theorem Patched.restoreBreakpoint (h : Patched ref d) (a : LPVOID b) :
    Patched ref (d.restoreBreakpoint a) := by
  refine ⟨restoreBreakpoint_accessible h.accessible a, ?_⟩
  rw [restoreBreakpoint_bytes h.accessible, restoreBreakpoint_table h.accessible]
  exact h.covers.undo a

theorem Patched.verifyBreakpoints (h : Patched ref d) : Patched ref d.verifyBreakpoints.1 :=
  ⟨h.accessible, h.covers.prune (fun a => verifyLoop_getElem? h.accessible _ _ _ _ a)⟩

theorem covers_storeAll {m : Memory b} {table : LPVOID b → Option BYTE}
    (h : Covers int3 ref m.bytes table) (who : Writer) (a : LPVOID b) {xs : List BYTE}
    (hxs : int3 ∉ xs) :
    Covers int3 (PatchOp.writeBytes a xs ref) (Memory.storeAll who a xs m).bytes table := by
  induction xs generalizing a m ref with
  | nil => exact h
  | cons x xs ih =>
    rw [List.mem_cons, not_or] at hxs
    exact ih (m := m.store who a x) (h.write (Ne.symm hxs.1)) (a + 1) hxs.2

theorem Patched.writeMemory (h : Patched ref d) (a : LPVOID b) {buffer : List BYTE}
    (hb : int3 ∉ buffer) :
    Patched (PatchOp.writeBytes a buffer ref) (d.writeMemory a buffer).1 := by
  rw [writeMemory_of_accessible h.accessible]
  exact ⟨h.accessible.storeAll _ _ _, covers_storeAll h.covers _ _ hb⟩

theorem Patched.run (h : Patched ref d) {op : PatchOp b} (hop : op.Clean) :
    Patched (op.reference ref) (op.run d) := by
  cases op with
  | setBreakpoint a => exact h.setBreakpoint a
  | restoreBreakpoint a => exact h.restoreBreakpoint a
  | verifyBreakpoints => exact h.verifyBreakpoints
  | writeMemory a buffer => exact h.writeMemory a hop

theorem Patched.runAll (h : Patched ref d) {ops : List (PatchOp b)} (hops : ∀ op ∈ ops, op.Clean) :
    Patched (ops.foldl PatchOp.reference ref) (ops.foldl PatchOp.run d) := by
  induction ops generalizing ref d with
  | nil => exact h
  | cons op ops ih =>
    exact ih (h.run (hops op List.mem_cons_self)) (fun o ho => hops o (List.mem_cons_of_mem _ ho))

theorem restoreAll_bytes (h : d.os.memory.Accessible) (as : List (LPVOID b)) :
    (as.foldl (fun d a => d.restoreBreakpoint a) d).os.memory.bytes =
      as.foldl (undo int3 d.table) d.os.memory.bytes := by
  induction as generalizing d with
  | nil => rfl
  | cons a as ih =>
    rw [List.foldl_cons, List.foldl_cons, ih (restoreBreakpoint_accessible h a),
      restoreBreakpoint_table h, restoreBreakpoint_bytes h]

theorem Patched.restoreAll (h : Patched ref d) {as : List (LPVOID b)}
    (has : as.Perm d.breakpoints.keys) :
    (as.foldl (fun d a => d.restoreBreakpoint a) d).os.memory.bytes = ref := by
  rw [restoreAll_bytes h.accessible]
  apply h.covers.undoAll_eq_ref
  intro a ha
  rw [has.mem_iff, Std.TreeMap.mem_keys, Std.TreeMap.mem_iff_isSome_getElem?]
  exact Option.isSome_iff_ne_none.mpr ha

end Debugger

/-- Whatever sequence of the four operations has run on accessible memory and an
initially empty table, memory differs from the reference only at listed
addresses that hold an int3 and whose entry is the reference byte, and restoring
every listed address once, in any order, gives exactly the reference. -/
theorem patches_undone {b : Build} (d : Debugger b) (hacc : d.os.memory.Accessible)
    (hempty : d.breakpoints = ∅) (ops : List (PatchOp b)) (hops : ∀ op ∈ ops, op.Clean) :
    let d' := ops.foldl PatchOp.run d
    let ref := ops.foldl PatchOp.reference d.os.memory.bytes
    (∀ a, d'.os.memory.bytes a ≠ ref a → d'.Armed a ∧ d'.breakpoints[a]? = some (ref a)) ∧
      ∀ as : List (LPVOID b), as.Perm d'.breakpoints.keys →
        (as.foldl (fun d a => d.restoreBreakpoint a) d').os.memory.bytes = ref := by
  have hstart : Debugger.Patched d.os.memory.bytes d := by
    refine ⟨hacc, ?_⟩
    have htable : d.table = fun _ => none := by
      funext a
      simp [Debugger.table, hempty]
    rw [htable]
    exact Covers.empty _
  have hp := hstart.runAll hops
  exact ⟨fun a ha => hp.covers.of_ne ha, fun as has => hp.restoreAll has⟩

theorem patches_undone_overwrite :
    let d : Debugger .x64 := .new (.ofCode (fun a => if a = 8 then int3 else 0x90) [1])
    let ops : List (PatchOp .x64) := [.setBreakpoint 5, .writeMemory 4 [1, 2], .setBreakpoint 8,
      .setBreakpoint 5, .restoreBreakpoint 4, .verifyBreakpoints]
    let d' := ops.foldl PatchOp.run d
    let ref := ops.foldl PatchOp.reference d.os.memory.bytes
    (∀ a, d'.os.memory.bytes a ≠ ref a → d'.Armed a ∧ d'.breakpoints[a]? = some (ref a)) ∧
      ∀ as : List (LPVOID .x64), as.Perm d'.breakpoints.keys →
        (as.foldl (fun d a => d.restoreBreakpoint a) d').os.memory.bytes = ref :=
  patches_undone _ (fun _ => ⟨rfl, rfl⟩) rfl _ (by decide)

end RoboDbg
