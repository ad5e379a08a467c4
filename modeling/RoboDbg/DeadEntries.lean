import RoboDbg.Breakpoints
import RoboDbg.Foundation.OrderedTable

/-!
# Which entries `verifyBreakpoints` removes

The loop erases the dead entry at its index and then moves its index on, so the
entry that takes its place is never looked at.
-/

namespace RoboDbg

open Std (TreeMap)
open OrderedTable

namespace Memory

variable {b : Build}

def Alive (m : Memory b) (a : LPVOID b) : Prop := m.readable a = true ∧ m.bytes a = int3

instance (m : Memory b) (a : LPVOID b) : Decidable (m.Alive a) :=
  inferInstanceAs (Decidable (_ ∧ _))

theorem readByte_eq_int3 {m : Memory b} {a : LPVOID b} :
    m.readByte a = some int3 ↔ m.Alive a := by
  unfold readByte Alive
  split_ifs with h
  · simp [h]
  · simp [h]

def dead (m : Memory b) (e : LPVOID b × BYTE) : Bool := !decide (m.Alive e.1)

@[simp] theorem dead_eq_false {m : Memory b} {e : LPVOID b × BYTE} :
    m.dead e = false ↔ m.Alive e.1 := by
  simp [dead]

@[simp] theorem dead_eq_true {m : Memory b} {e : LPVOID b × BYTE} :
    m.dead e = true ↔ ¬ m.Alive e.1 := by
  simp [dead]

end Memory

namespace Debugger

variable {b : Build}

theorem verifyLoop_succ (m : Memory b) (fuel i : ℕ) (bps : TreeMap (LPVOID b) BYTE compare)
    (erased : ℤ) {e : LPVOID b × BYTE} (he : bps.toList[i]? = some e) :
    verifyLoop m (fuel + 1) i bps erased =
      if m.dead e then verifyLoop m fuel (i + 1) (bps.erase e.1) (erased + 1)
      else verifyLoop m fuel (i + 1) bps erased := by
  rw [← entryAtIdx?_eq_getElem?] at he
  rw [verifyLoop, he]
  by_cases ha : m.Alive e.1
  · have hdead : m.dead e = false := Memory.dead_eq_false.mpr ha
    simp [Memory.readByte_eq_int3.mpr ha, hdead]
  · have hdead : m.dead e = true := Memory.dead_eq_true.mpr ha
    rw [hdead]
    cases hr : m.readByte e.1 with
    | none => simp [hr]
    | some cur =>
      have hcur : cur ≠ int3 := by
        rintro rfl
        exact ha (Memory.readByte_eq_int3.mp hr)
      simp [hr, hcur]

theorem verifyLoop_none (m : Memory b) (fuel i : ℕ) {bps : TreeMap (LPVOID b) BYTE compare}
    (erased : ℤ) (hi : bps.toList.length ≤ i) : verifyLoop m fuel i bps erased = (bps, erased) := by
  cases fuel with
  | zero => rfl
  | succ fuel =>
    have hnone : bps.entryAtIdx? i = none := by
      rw [entryAtIdx?_eq_getElem?, List.getElem?_eq_none_iff]
      exact hi
    rw [verifyLoop, hnone]

/-- The loop from the end of `pre` on leaves `pre` alone and counts what it erases. -/
theorem verifyLoop_toList (m : Memory b) {fuel : ℕ} {pre post : List (LPVOID b × BYTE)}
    {bps : TreeMap (LPVOID b) BYTE compare} (hbps : bps.toList = pre ++ post)
    (hfuel : post.length ≤ fuel) (erased : ℤ) :
    (verifyLoop m fuel pre.length bps erased).1.toList = pre ++ skipErase m.dead post ∧
      (verifyLoop m fuel pre.length bps erased).2 =
        erased + (post.length - (skipErase m.dead post).length) := by
  induction fuel generalizing pre post bps erased with
  | zero =>
    obtain rfl : post = [] := List.eq_nil_of_length_eq_zero (by omega)
    rw [verifyLoop_none m 0 _ erased (by simp [hbps])]
    simp [hbps, skipErase]
  | succ fuel ih =>
    cases post with
    | nil =>
      rw [verifyLoop_none m _ _ erased (by simp [hbps])]
      simp [hbps, skipErase]
    | cons e rest =>
      have he : bps.toList[pre.length]? = some e := by simp [hbps]
      rw [List.length_cons, Nat.add_le_add_iff_right] at hfuel
      rw [verifyLoop_succ m fuel _ bps erased he]
      cases hdead : m.dead e with
      | true =>
        have herase := toList_erase hbps
        rw [if_pos rfl, skipErase_cons_of_dead hdead]
        cases rest with
        | nil =>
          rw [verifyLoop_none m _ _ _ (by simp [herase])]
          simp [herase, skipErase]
        | cons y rest =>
          -- `y` has moved to the index that the loop leaves
          have hnext : (bps.erase e.1).toList = (pre ++ [y]) ++ rest := by
            rw [herase, List.append_assoc, List.singleton_append]
          have hlen : pre.length + 1 = (pre ++ [y]).length := by simp
          obtain ⟨hlist, hcount⟩ := ih hnext (Nat.le_of_succ_le hfuel) (erased + 1)
          rw [hlen, hlist, hcount]
          refine ⟨by simp, ?_⟩
          simp
          omega
      | false =>
        have hnext : bps.toList = (pre ++ [e]) ++ rest := by
          rw [hbps, List.append_assoc, List.singleton_append]
        have hlen : pre.length + 1 = (pre ++ [e]).length := by simp
        obtain ⟨hlist, hcount⟩ := ih hnext hfuel erased
        rw [if_neg (by simp), skipErase_cons_of_alive hdead, hlen, hlist, hcount]
        refine ⟨by simp, ?_⟩
        simp

theorem verifyBreakpoints_toList (d : Debugger b) :
    d.verifyBreakpoints.1.breakpoints.toList =
        skipErase d.os.memory.dead d.breakpoints.toList ∧
      d.verifyBreakpoints.2 =
        (d.breakpoints.size : ℤ) - d.verifyBreakpoints.1.breakpoints.size := by
  have hfuel : d.breakpoints.toList.length ≤ d.breakpoints.size :=
    TreeMap.length_toList.le
  have hbps : d.breakpoints.toList = [] ++ d.breakpoints.toList := rfl
  obtain ⟨hlist, hcount⟩ := verifyLoop_toList d.os.memory hbps hfuel 0
  rw [List.nil_append, List.length_nil] at hlist
  rw [List.length_nil] at hcount
  refine ⟨hlist, ?_⟩
  rw [← TreeMap.length_toList, ← TreeMap.length_toList]
  change (verifyLoop _ _ _ _ _).2 = _ - ((verifyLoop _ _ _ _ _).1.toList.length : ℤ)
  rw [hlist, hcount, zero_add]

def NoDeadNeighbours (d : Debugger b) : Prop :=
  d.breakpoints.keys.IsChain (fun a a' => d.os.memory.Alive a ∨ d.os.memory.Alive a')

instance (d : Debugger b) : Decidable d.NoDeadNeighbours :=
  inferInstanceAs (Decidable (List.IsChain _ _))

theorem noDeadNeighbours_iff {d : Debugger b} :
    d.NoDeadNeighbours ↔ d.breakpoints.toList.IsChain
      (fun e e' => d.os.memory.dead e = false ∨ d.os.memory.dead e' = false) := by
  simp only [NoDeadNeighbours, ← TreeMap.map_fst_toList_eq_keys, List.isChain_map,
    Memory.dead_eq_false]

end Debugger

/-- `verifyBreakpoints` keeps exactly the entries whose address can be read and
holds an int3, and counts the others, if and only if no two neighbours are dead. -/
theorem verifyBreakpoints_exact_iff {b : Build} (d : Debugger b) :
    ((∀ (a : LPVOID b) (x : BYTE), d.verifyBreakpoints.1.breakpoints[a]? = some x ↔
          d.breakpoints[a]? = some x ∧ d.os.memory.Alive a) ∧
        d.verifyBreakpoints.2 =
          (d.breakpoints.size : ℤ) - d.verifyBreakpoints.1.breakpoints.size) ↔
      d.NoDeadNeighbours := by
  obtain ⟨hlist, hcount⟩ := d.verifyBreakpoints_toList
  have hmem : ∀ (a : LPVOID b) (x : BYTE),
      (a, x) ∈ d.breakpoints.toList.filter (fun e => !d.os.memory.dead e) ↔
        d.breakpoints[a]? = some x ∧ d.os.memory.Alive a := by
    intro a x
    rw [List.mem_filter, TreeMap.mem_toList_iff_getElem?_eq_some]
    simp
  rw [Debugger.noDeadNeighbours_iff, ← skipErase_eq_filter_iff, ← hlist]
  constructor
  · rintro ⟨hexact, -⟩
    apply toList_eq_of_forall (TreeMap.ordered_keys_toList.sublist List.filter_sublist)
    intro a x
    rw [hmem, hexact]
  · intro hfilter
    refine ⟨fun a x => ?_, hcount⟩
    rw [← TreeMap.mem_toList_iff_getElem?_eq_some, hfilter, hmem]

/-- Two neighbouring entries are dead, and the second one is kept. -/
theorem verifyBreakpoints_keeps_dead :
    let os : Os .x64 := .ofCode (fun _ => 0x90) [1]
    let d := ((Debugger.new os).setBreakpoint 0x1000).setBreakpoint 0x1001
    let d := (d.writeMemory 0x1000 [0x90, 0x90]).1
    ¬ ((∀ (a : LPVOID .x64) (x : BYTE), d.verifyBreakpoints.1.breakpoints[a]? = some x ↔
          d.breakpoints[a]? = some x ∧ d.os.memory.Alive a) ∧
        d.verifyBreakpoints.2 =
          (d.breakpoints.size : ℤ) - d.verifyBreakpoints.1.breakpoints.size) := by
  intro os d₀ d h
  have hkept := (h.1 0x1001 0x90).mp (by decide +kernel)
  exact absurd hkept.2 (by decide +kernel)

end RoboDbg
