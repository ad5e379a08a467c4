import Mathlib.Data.Set.Basic
import RoboDbg.Breakpoints
import RoboDbg.Imports
import RoboDbg.Foundation.LastWrites

/-!
# Redirecting imports

A slot of an import address table holds a pointer of four or eight bytes, and whoever
writes another pointer to it with `writeMemory` redirects the import. Slots that share no
byte can be written in any order: each holds the pointer that was written to it last, and
memory outside of them stays.
-/

namespace RoboDbg

open Imports LastWrites

variable {b : Build}

/-! ## The bytes of a number -/

def bytesOf : ℕ → ℕ → List BYTE
  | 0, _ => []
  | n + 1, v => BitVec.ofNat 8 v :: bytesOf n (v / 256)

@[simp] theorem length_bytesOf (n v : ℕ) : (bytesOf n v).length = n := by
  induction n generalizing v with
  | zero => rfl
  | succ n ih => rw [bytesOf, List.length_cons, ih]

theorem littleEndian_bytesOf (n v : ℕ) : littleEndian (bytesOf n v) = v % 256 ^ n := by
  induction n generalizing v with
  | zero => rw [bytesOf, littleEndian, pow_zero, Nat.mod_one]
  | succ n ih =>
    have hbyte : (BitVec.ofNat 8 v).toNat = v % 256 := BitVec.toNat_ofNat v 8
    rw [bytesOf, littleEndian, ih, hbyte, pow_succ', Nat.mod_mul]

theorem littleEndian_lt (xs : List BYTE) : littleEndian xs < 256 ^ xs.length := by
  induction xs with
  | nil => exact Nat.one_pos
  | cons x xs ih =>
    have hx : x.toNat < 256 := x.isLt
    rw [littleEndian, List.length_cons, pow_succ']
    omega

theorem littleEndian_inj {xs ys : List BYTE} (hlen : xs.length = ys.length)
    (h : littleEndian xs = littleEndian ys) : xs = ys := by
  induction xs generalizing ys with
  | nil => exact (List.length_eq_zero_iff.mp hlen.symm).symm
  | cons x xs ih =>
    cases ys with
    | nil => cases hlen
    | cons y ys =>
      have hx : x.toNat < 256 := x.isLt
      have hy : y.toNat < 256 := y.isLt
      rw [littleEndian, littleEndian] at h
      have hhead : x = y := BitVec.eq_of_toNat_eq (by omega)
      have htail : xs = ys := ih (Nat.succ.inj hlen) (by omega)
      rw [hhead, htail]

/-! ## Reading what was stored -/

namespace Memory

variable {m m' : Memory b}

theorem view_succ (m : Memory b) (a : LPVOID b) (n : ℕ) :
    m.view a (n + 1) = m.bytes a :: m.view (a + 1) n := by
  have hone : m.view a 1 = [m.bytes a] := by
    simp only [view, List.range_one, List.map_cons, List.map_nil, BitVec.add_zero]
  rw [Nat.add_comm, view_add, hone]
  rfl

theorem view_congr {a : LPVOID b} {n : ℕ}
    (h : ∀ k < n, m'.bytes (a + BitVec.ofNat _ k) = m.bytes (a + BitVec.ofNat _ k)) :
    m'.view a n = m.view a n :=
  List.map_congr_left (fun k hk => h k (List.mem_range.mp hk))

theorem storeAll_access (who : Writer) (a : LPVOID b) (xs : List BYTE) (m : Memory b) :
    (storeAll who a xs m).readable = m.readable ∧ (storeAll who a xs m).writable = m.writable := by
  induction xs generalizing a m with
  | nil => exact ⟨rfl, rfl⟩
  | cons x xs ih => exact ih (a + 1) (m.store who a x)

theorem storeAll_bytes_of_ne (who : Writer) {a x : LPVOID b} {xs : List BYTE}
    (h : ∀ k < xs.length, x ≠ a + BitVec.ofNat _ k) (m : Memory b) :
    (storeAll who a xs m).bytes x = m.bytes x := by
  induction xs generalizing a m with
  | nil => rfl
  | cons y ys ih =>
    have hfirst : x ≠ a := by
      have h0 := h 0 (Nat.succ_pos _)
      rwa [BitVec.add_zero] at h0
    have hrest : ∀ k < ys.length, x ≠ a + 1 + BitVec.ofNat _ k := by
      intro k hk
      have hk' := h (k + 1) (Nat.succ_lt_succ hk)
      rwa [Nat.add_comm k 1, BitVec.ofNat_add, ← BitVec.add_assoc] at hk'
    rw [storeAll, ih hrest]
    exact Function.update_of_ne hfirst _ _

theorem view_storeAll (who : Writer) (a : LPVOID b) {xs : List BYTE} (h : xs.length < 2 ^ b.bits)
    (m : Memory b) : (storeAll who a xs m).view a xs.length = xs := by
  induction xs generalizing a m with
  | nil => rfl
  | cons x xs ih =>
    rw [List.length_cons] at h
    have hbehind : ∀ k < xs.length, a ≠ a + 1 + BitVec.ofNat _ k := by
      intro k hk heq
      have heq' : a + 0#b.bits = a + BitVec.ofNat _ (1 + k) := by
        rwa [BitVec.add_zero, BitVec.ofNat_add, ← BitVec.add_assoc]
      have hval := congrArg BitVec.toNat ((BitVec.add_right_inj a).mp heq')
      rw [BitVec.toNat_ofNat, BitVec.toNat_ofNat, Nat.zero_mod, Nat.mod_eq_of_lt (by omega)] at hval
      omega
    rw [List.length_cons, view_succ, storeAll, ih (a + 1) (by omega),
      storeAll_bytes_of_ne who hbehind]
    rw [store_bytes, Function.update_self]

end Memory

/-! ## Slots -/

structure IatSlot (b : Build) where
  address : LPVOID b
  is64 : Bool

namespace IatSlot

def addresses (s : IatSlot b) : Set (LPVOID b) :=
  {a | ∃ k < psize s.is64, a = s.address + BitVec.ofNat _ k}

def pointer (s : IatSlot b) (m : Memory b) : ULONGLONG := readThunk m s.is64 s.address

/-- The part of a pointer that the slot has space for. -/
def fit (s : IatSlot b) (p : ULONGLONG) : ULONGLONG :=
  if s.is64 then p else (p.setWidth 32).setWidth 64

def writable (s : IatSlot b) (m : Memory b) : Bool :=
  (List.range (psize s.is64)).all (fun k => m.writable (s.address + BitVec.ofNat _ k))

variable {s : IatSlot b} {m m' : Memory b}

theorem psize_lt (is64 : Bool) : psize is64 < 2 ^ b.bits := by
  cases b <;> cases is64 <;> decide

theorem address_mem (s : IatSlot b) : s.address ∈ s.addresses := by
  refine ⟨0, ?_, (BitVec.add_zero _).symm⟩
  cases s.is64 <;> decide

theorem pointer_toNat (h : ∀ a ∈ s.addresses, m.readable a = true) :
    (s.pointer m).toNat = littleEndian (m.view s.address (psize s.is64)) := by
  have hread : m.readProcessMemory s.address (psize s.is64) =
      some (m.view s.address (psize s.is64)) :=
    Memory.readProcessMemory_eq (fun k hk => h _ ⟨k, hk, rfl⟩)
  have hlt := littleEndian_lt (m.view s.address (psize s.is64))
  rw [Memory.length_view] at hlt
  obtain ⟨address, is64⟩ := s
  cases is64 with
  | true =>
    simp only [psize, if_true] at hread hlt
    simp only [pointer, readThunk, psize, if_true, Memory.readMemory, Pod.size, hread, Nat.reduceDiv,
      Option.getD_some, Pod.ofBytes, BitVec.toNat_ofNat]
    exact Nat.mod_eq_of_lt hlt
  | false =>
    simp only [psize, Bool.false_eq_true, if_false] at hread hlt
    simp only [pointer, readThunk, psize, Bool.false_eq_true, if_false, Memory.readMemory, Pod.size,
      hread, Nat.reduceDiv, Option.getD_some, Pod.ofBytes, BitVec.toNat_setWidth,
      BitVec.toNat_ofNat]
    omega

theorem bytes_eq_of_pointer_eq (h : ∀ a ∈ s.addresses, m.readable a = true)
    (haccess : m'.readable = m.readable) (hp : s.pointer m' = s.pointer m) {a : LPVOID b}
    (ha : a ∈ s.addresses) : m'.bytes a = m.bytes a := by
  have h' : ∀ a ∈ s.addresses, m'.readable a = true := by
    rw [haccess]
    exact h
  have hnum := congrArg BitVec.toNat hp
  rw [pointer_toNat h', pointer_toNat h] at hnum
  have hview := littleEndian_inj (by rw [Memory.length_view, Memory.length_view]) hnum
  obtain ⟨k, hk, rfl⟩ := ha
  exact List.map_inj_left.mp hview k (List.mem_range.mpr hk)

theorem pointer_congr (h : ∀ a ∈ s.addresses, m.readable a = true)
    (haccess : m'.readable = m.readable) (hb : ∀ a ∈ s.addresses, m'.bytes a = m.bytes a) :
    s.pointer m' = s.pointer m := by
  have h' : ∀ a ∈ s.addresses, m'.readable a = true := by
    rw [haccess]
    exact h
  apply BitVec.eq_of_toNat_eq
  rw [pointer_toNat h', pointer_toNat h, Memory.view_congr (fun k hk => hb _ ⟨k, hk, rfl⟩)]

theorem pointer_storeAll (h : ∀ a ∈ s.addresses, m.readable a = true) (who : Writer)
    (p : ULONGLONG) :
    s.pointer (Memory.storeAll who s.address (bytesOf (psize s.is64) p.toNat) m) = s.fit p := by
  have hreadable : ∀ a ∈ s.addresses,
      (Memory.storeAll who s.address (bytesOf (psize s.is64) p.toNat) m).readable a = true := by
    rw [(Memory.storeAll_access _ _ _ _).1]
    exact h
  have hlen : (bytesOf (psize s.is64) p.toNat).length < 2 ^ b.bits := by
    rw [length_bytesOf]
    exact psize_lt _
  have hview := Memory.view_storeAll who s.address hlen m
  rw [length_bytesOf] at hview
  apply BitVec.eq_of_toNat_eq
  rw [pointer_toNat hreadable, hview, littleEndian_bytesOf, fit]
  have hp : p.toNat < 2 ^ 64 := p.isLt
  cases s.is64 with
  | true => exact Nat.mod_eq_of_lt hp
  | false =>
    simp only [psize, Bool.false_eq_true, if_false, BitVec.toNat_setWidth]
    omega

end IatSlot

/-! ## Runs of redirections -/

/-- The caller writes a pointer to one of the slots. -/
structure Redirection (slots : Set (IatSlot b)) where
  slot : slots
  pointer : ULONGLONG

variable {slots : Set (IatSlot b)}

namespace Redirection

def run (d : Debugger b) (r : Redirection slots) : Debugger b :=
  (d.writeMemory r.slot.1.address (bytesOf (psize r.slot.1.is64) r.pointer.toNat)).1

/-- What the redirection leaves at an address, when memory can be written as `m` can. -/
def written (m : Memory b) (r : Redirection slots) (a : LPVOID b) : Option ULONGLONG :=
  if r.slot.1.address = a ∧ r.slot.1.writable m = true then some (r.slot.1.fit r.pointer) else none

def lastPointer (m : Memory b) (rs : List (Redirection slots)) (a : LPVOID b) : Option ULONGLONG :=
  last (written m) rs a

end Redirection

def SameProtection (m : Memory b) (d : Debugger b) : Prop :=
  d.os.memory.readable = m.readable ∧ d.os.memory.writable = m.writable

/-- Slots that can be read and share no byte. -/
structure Separated (slots : Set (IatSlot b)) (m : Memory b) : Prop where
  readable : ∀ s ∈ slots, ∀ a ∈ s.addresses, m.readable a = true
  disjoint : ∀ s ∈ slots, ∀ t ∈ slots, s ≠ t → ∀ a ∈ s.addresses, a ∉ t.addresses

section Run

variable {m : Memory b} {d : Debugger b}

theorem Separated.eq_of_address (h : Separated slots m) {s t : IatSlot b} (hs : s ∈ slots)
    (ht : t ∈ slots) (heq : s.address = t.address) : s = t := by
  by_contra hne
  have hmem : s.address ∈ t.addresses := heq ▸ t.address_mem
  exact h.disjoint s hs t ht hne s.address s.address_mem hmem

theorem Redirection.run_memory (r : Redirection slots) (d : Debugger b) :
    (r.run d).os.memory = if r.slot.1.writable d.os.memory then
      Memory.storeAll .writeMemory r.slot.1.address
        (bytesOf (psize r.slot.1.is64) r.pointer.toNat) d.os.memory
    else d.os.memory := by
  have hguard : (List.range (bytesOf (psize r.slot.1.is64) r.pointer.toNat).length).all
      (fun k => d.os.memory.writable (r.slot.1.address + BitVec.ofNat _ k)) =
        r.slot.1.writable d.os.memory := by
    rw [length_bytesOf]
    rfl
  simp only [run, Debugger.writeMemory, Memory.writeProcessMemory, hguard]
  split_ifs <;> rfl

theorem SameProtection.writable_eq (h : SameProtection m d) (s : IatSlot b) :
    s.writable d.os.memory = s.writable m := by
  simp only [IatSlot.writable, h.2]

theorem SameProtection.run (h : SameProtection m d) (r : Redirection slots) :
    SameProtection m (r.run d) := by
  rw [SameProtection, r.run_memory]
  split_ifs
  · obtain ⟨hr, hw⟩ := Memory.storeAll_access .writeMemory r.slot.1.address
      (bytesOf (psize r.slot.1.is64) r.pointer.toNat) d.os.memory
    exact ⟨hr.trans h.1, hw.trans h.2⟩
  · exact h

theorem Redirection.run_bytes (r : Redirection slots) {a : LPVOID b}
    (ha : a ∉ r.slot.1.addresses) : (r.run d).os.memory.bytes a = d.os.memory.bytes a := by
  rw [r.run_memory]
  split_ifs
  · apply Memory.storeAll_bytes_of_ne
    intro k hk heq
    rw [length_bytesOf] at hk
    exact ha ⟨k, hk, heq⟩
  · rfl

theorem Separated.writes (h : Separated slots m) :
    Writes (SameProtection m) (fun d (r : Redirection slots) => r.run d)
      (fun d (s : slots) => s.1.pointer d.os.memory) (fun r s => r.written m s.1.address) := by
  refine ⟨fun d r hd => hd.run r, fun d r s hd => ?_⟩
  have hreadable : ∀ a ∈ s.1.addresses, d.os.memory.readable a = true := by
    rw [hd.1]
    exact h.readable s.1 s.2
  by_cases hslot : r.slot = s
  · subst hslot
    simp only [Redirection.written, true_and, r.run_memory, hd.writable_eq]
    split_ifs
    · exact IatSlot.pointer_storeAll hreadable _ _
    · rfl
  · have hne : r.slot.1 ≠ s.1 := fun heq => hslot (Subtype.ext heq)
    have haddress : ¬ r.slot.1.address = s.1.address :=
      fun heq => hne (h.eq_of_address r.slot.2 s.2 heq)
    simp only [Redirection.written, haddress, false_and, if_false, Option.getD_none]
    apply IatSlot.pointer_congr hreadable
    · rw [(hd.run r).1, hd.1]
    · intro a ha
      exact r.run_bytes (fun hmem =>
        h.disjoint r.slot.1 r.slot.2 s.1 s.2 hne a hmem ha)

variable (rs : List (Redirection slots))

theorem foldl_sameProtection (d : Debugger b) :
    SameProtection d.os.memory (rs.foldl (fun d r => r.run d) d) := by
  have hstart : SameProtection d.os.memory d := ⟨rfl, rfl⟩
  induction rs using List.reverseRecOn with
  | nil => exact hstart
  | append_singleton rs r ih =>
    rw [List.foldl_append]
    exact ih.run r

theorem foldl_bytes {a : LPVOID b} (ha : ∀ s ∈ slots, a ∉ s.addresses) (d : Debugger b) :
    (rs.foldl (fun d r => r.run d) d).os.memory.bytes a = d.os.memory.bytes a := by
  induction rs generalizing d with
  | nil => rfl
  | cons r rs ih => exact (ih (r.run d)).trans (r.run_bytes (ha r.slot.1 r.slot.2))

/-- A slot holds the pointer that was written to it last. -/
theorem Separated.foldl_pointer (h : Separated slots d.os.memory) {s : IatSlot b} (hs : s ∈ slots) :
    s.pointer (rs.foldl (fun d r => r.run d) d).os.memory =
      (Redirection.lastPointer d.os.memory rs s.address).getD (s.pointer d.os.memory) :=
  h.writes.foldl_read ⟨rfl, rfl⟩ rs ⟨s, hs⟩

/-- When every slot holds its first pointer again, so does every byte. -/
theorem Separated.foldl_restores (h : Separated slots d.os.memory)
    (hlast : ∀ s ∈ slots, (Redirection.lastPointer d.os.memory rs s.address).getD
      (s.pointer d.os.memory) = s.pointer d.os.memory) :
    (rs.foldl (fun d r => r.run d) d).os.memory.bytes = d.os.memory.bytes := by
  funext a
  by_cases ha : ∃ s ∈ slots, a ∈ s.addresses
  · obtain ⟨s, hs, hmem⟩ := ha
    apply IatSlot.bytes_eq_of_pointer_eq (h.readable s hs) (foldl_sameProtection rs d).1 ?_ hmem
    rw [h.foldl_pointer rs hs]
    exact hlast s hs
  · exact foldl_bytes rs (fun s hs hmem => ha ⟨s, hs, hmem⟩) d

end Run
end RoboDbg
