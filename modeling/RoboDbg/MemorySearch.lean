import Mathlib.Data.List.Sort
import RoboDbg.MemoryRegions

/-!
# Search in the debuggee's memory

`searchInMemory` reads each region that it may read into a buffer and compares the
pattern at every offset. It finds each occurrence that lies in one region, and none that
goes over the end of a region.
-/

namespace RoboDbg

open Loops Tilings

variable {b : Build}

structure ByteVector (b : Build) where
  bytes : List BYTE
  fits : bytes.length < 2 ^ b.bits

/-- Compares with the buffer from an offset on; `none` for a read past its end. -/
def memcmp (buffer : List BYTE) (i : ℕ) (pattern : List BYTE) : Option Bool :=
  if i + pattern.length ≤ buffer.length then
    some ((buffer.drop i).take pattern.length = pattern)
  else none

namespace AddressSpace

/-- One pass of the loop over the offsets of a region, on `i` and `matches`. -/
def offsetPass (pattern : ByteVector b) (base : LPVOID b) (buffer : List BYTE)
    (bytesRead : SIZE_T b) (r : SIZE_T b × List (DWORD_PTR b)) :
    Option (Pass (SIZE_T b × List (DWORD_PTR b))) :=
  let i := r.1
  if i + BitVec.ofNat _ pattern.bytes.length ≤ bytesRead then
    (memcmp buffer i.toNat pattern.bytes).map (fun same =>
      .again (i + 1, if same then r.2 ++ [base + i] else r.2))
  else some (.done r)

def searchRegion (n : ℕ) (space : AddressSpace b) (pattern : ByteVector b)
    (found : List (DWORD_PTR b)) (region : MemoryRegion b) : Option (List (DWORD_PTR b)) :=
  if region.State ≠ MEM_COMMIT ∨ region.Protect &&& PAGE_GUARD ≠ 0 ∨
      region.Protect = PAGE_NOACCESS then some found
  else
    match space.memory.readProcessMemory region.BaseAddress region.RegionSize.toNat with
    | none => some found
    | some buffer =>
      (forever (offsetPass pattern region.BaseAddress buffer region.RegionSize) n
        (0, found)).map Prod.snd

/-- `none` while a loop needs more than `n` passes, and for a read past the end of a
buffer. -/
def searchInMemory (n : ℕ) (pattern : ByteVector b) (space : AddressSpace b) :
    Option (List (DWORD_PTR b)) :=
  (space.getMemoryPages n).bind (fun regions =>
    regions.foldlM (fun found region => space.searchRegion n pattern found region) [])

end AddressSpace

/-! ## Occurrences of a pattern -/

def occurrences (pattern buffer : List BYTE) : List ℕ :=
  (List.range (buffer.length + 1 - pattern.length)).filter
    (fun i => (buffer.drop i).take pattern.length = pattern)

theorem mem_occurrences {pattern buffer : List BYTE} (hne : pattern ≠ []) (i : ℕ) :
    i ∈ occurrences pattern buffer ↔
      i + pattern.length ≤ buffer.length ∧ (buffer.drop i).take pattern.length = pattern := by
  have hpos := List.length_pos_of_ne_nil hne
  simp only [occurrences, List.mem_filter, List.mem_range, decide_eq_true_eq]
  exact and_congr_left' (by omega)

theorem occurrences_pairwise (pattern buffer : List BYTE) :
    (occurrences pattern buffer).Pairwise (· < ·) :=
  List.pairwise_lt_range.filter _

namespace AddressSpace

section Offsets

variable {pattern : ByteVector b} (base : LPVOID b) {buffer : List BYTE} {bytesRead : SIZE_T b}
  (hread : bytesRead.toNat = buffer.length) {i : ℕ}
include hread

theorem offset_le_iff (hi : i + pattern.bytes.length < 2 ^ b.bits) :
    BitVec.ofNat b.bits i + BitVec.ofNat _ pattern.bytes.length ≤ bytesRead ↔
      i + pattern.bytes.length ≤ buffer.length := by
  rw [← BitVec.ofNat_add, BitVec.le_def, hread, BitVec.toNat_ofNat, Nat.mod_eq_of_lt hi]

theorem offsetPass_done (hi : i + pattern.bytes.length < 2 ^ b.bits)
    (hend : buffer.length < i + pattern.bytes.length) (found : List (DWORD_PTR b)) :
    offsetPass pattern base buffer bytesRead (BitVec.ofNat _ i, found) =
      some (.done (BitVec.ofNat _ i, found)) := by
  simp only [offsetPass, offset_le_iff hread hi, not_le.mpr hend, if_false]

theorem offsetPass_again (hroom : buffer.length < 2 ^ b.bits)
    (hin : i + pattern.bytes.length ≤ buffer.length) (found : List (DWORD_PTR b)) :
    offsetPass pattern base buffer bytesRead (BitVec.ofNat _ i, found) =
      some (.again (BitVec.ofNat _ (i + 1),
        if (buffer.drop i).take pattern.bytes.length = pattern.bytes then
          found ++ [base + BitVec.ofNat _ i] else found)) := by
  have htoNat : (BitVec.ofNat b.bits i).toNat = i := by
    rw [BitVec.toNat_ofNat, Nat.mod_eq_of_lt (by omega)]
  have hone : BitVec.ofNat b.bits i + 1 = BitVec.ofNat _ (i + 1) := (BitVec.ofNat_add i 1).symm
  simp only [offsetPass, offset_le_iff hread (hin.trans_lt hroom), hin, if_true, memcmp, htoNat,
    Option.map_some, hone, decide_eq_true_eq]

theorem offsets_end (hroom : buffer.length + 1 < 2 ^ b.bits) (k : ℕ)
    (hi : i + k = buffer.length + 1 - pattern.bytes.length) (found : List (DWORD_PTR b)) :
    ∃ i', Ends (fun _ => offsetPass pattern base buffer bytesRead) (BitVec.ofNat _ i, found)
      (i', found ++ ((List.range' i k).filter (fun j =>
        (buffer.drop j).take pattern.bytes.length = pattern.bytes)).map
          (fun j => base + BitVec.ofNat _ j)) := by
  have hfits := pattern.fits
  induction k generalizing i found with
  | zero =>
    refine ⟨BitVec.ofNat _ i, Ends.done ?_⟩
    rw [offsetPass_done base hread (by omega) (by omega)]
    simp only [List.range'_zero, List.filter_nil, List.map_nil, List.append_nil]
    exact Yields.const _
  | succ k ih =>
    have hin : i + pattern.bytes.length ≤ buffer.length := by omega
    have hnext : i + 1 + k = buffer.length + 1 - pattern.bytes.length := by omega
    have hpass := offsetPass_again base hread (by omega) hin found
    rw [List.range'_succ]
    by_cases hsame : (buffer.drop i).take pattern.bytes.length = pattern.bytes
    · rw [if_pos hsame] at hpass
      obtain ⟨i', hend⟩ := ih hnext (found ++ [base + BitVec.ofNat _ i])
      rw [List.append_assoc, List.singleton_append] at hend
      refine ⟨i', Ends.again (hpass ▸ Yields.const _) ?_⟩
      rwa [List.filter_cons_of_pos (by simpa using hsame), List.map_cons]
    · rw [if_neg hsame] at hpass
      obtain ⟨i', hend⟩ := ih hnext found
      refine ⟨i', Ends.again (hpass ▸ Yields.const _) ?_⟩
      rwa [List.filter_cons_of_neg (by simpa using hsame)]

end Offsets

end AddressSpace

/-! ## What is found in a region -/

theorem Memory.take_drop_view (m : Memory b) (a : LPVOID b) {i k n : ℕ} (h : i + k ≤ n) :
    ((m.view a n).drop i).take k = m.view (a + BitVec.ofNat _ i) k := by
  have hsplit : n = i + (n - i) := by omega
  rw [hsplit, view_add, List.drop_left' (length_view _ _ _)]
  exact m.take_view _ (by omega)

namespace MemoryRegion

variable {m : Memory b} {pattern : List BYTE} {r : MemoryRegion b}

structure Searchable (r : MemoryRegion b) (m : Memory b) : Prop where
  committed : r.State = MEM_COMMIT
  noGuard : r.Protect &&& PAGE_GUARD = 0
  access : r.Protect ≠ PAGE_NOACCESS
  readable : ∀ k < r.RegionSize.toNat, m.readable (r.BaseAddress + BitVec.ofNat _ k) = true

def hits (m : Memory b) (pattern : List BYTE) (r : MemoryRegion b) : List (DWORD_PTR b) :=
  if r.State ≠ MEM_COMMIT ∨ r.Protect &&& PAGE_GUARD ≠ 0 ∨ r.Protect = PAGE_NOACCESS then []
  else
    match m.readProcessMemory r.BaseAddress r.RegionSize.toNat with
    | none => []
    | some buffer =>
      (occurrences pattern buffer).map (fun i => r.BaseAddress + BitVec.ofNat _ i)

theorem hits_of_searchable (h : r.Searchable m) :
    r.hits m pattern = (occurrences pattern (m.view r.BaseAddress r.RegionSize.toNat)).map
      (fun i => r.BaseAddress + BitVec.ofNat _ i) := by
  have hread := Memory.readProcessMemory_eq_some.mpr
    ⟨h.readable, rfl (a := m.view r.BaseAddress r.RegionSize.toNat)⟩
  have hfilter : ¬ (r.State ≠ MEM_COMMIT ∨ r.Protect &&& PAGE_GUARD ≠ 0 ∨
      r.Protect = PAGE_NOACCESS) := by
    rintro (hc | hc | hc)
    · exact hc h.committed
    · exact hc h.noGuard
    · exact h.access hc
  simp only [hits, if_neg hfilter, hread]

theorem hits_of_not_searchable (h : ¬ r.Searchable m) : r.hits m pattern = [] := by
  unfold hits
  split_ifs with hfilter
  · rfl
  · simp only [not_or, not_not] at hfilter
    split
    · rfl
    · next buffer hread =>
      obtain ⟨hreadable, -⟩ := Memory.readProcessMemory_eq_some.mp hread
      exact absurd ⟨hfilter.1, hfilter.2.1, hfilter.2.2, hreadable⟩ h

theorem toNat_base_add (hfits : r.stop ≤ 2 ^ b.bits) {i : ℕ} (hi : i < r.RegionSize.toNat) :
    (r.BaseAddress + BitVec.ofNat _ i).toNat = r.start + i := by
  have hsize := r.RegionSize.isLt
  have hlt : r.BaseAddress.toNat + i < 2 ^ b.bits := by
    unfold stop at hfits
    omega
  rw [BitVec.toNat_add, BitVec.toNat_ofNat, Nat.add_mod_mod, Nat.mod_eq_of_lt hlt]
  rfl

theorem mem_hits (hfits : r.stop ≤ 2 ^ b.bits) (hne : pattern ≠ []) (a : LPVOID b) :
    a ∈ r.hits m pattern ↔ r.Searchable m ∧ r.start ≤ a.toNat ∧
      a.toNat + pattern.length ≤ r.stop ∧ m.view a pattern.length = pattern := by
  have hpos := List.length_pos_of_ne_nil hne
  by_cases hs : r.Searchable m
  · simp only [hits_of_searchable hs, List.mem_map, mem_occurrences hne, Memory.length_view, hs,
      true_and]
    constructor
    · rintro ⟨i, ⟨hin, hsame⟩, rfl⟩
      rw [Memory.take_drop_view m _ hin] at hsame
      rw [toNat_base_add hfits (by omega)]
      exact ⟨Nat.le_add_right _ _, by unfold start stop; omega, hsame⟩
    · rintro ⟨hstart, hstop, hsame⟩
      unfold stop at hstop
      unfold start at hstart
      have hin : a.toNat - r.start + pattern.length ≤ r.RegionSize.toNat := by
        unfold start
        omega
      have ha : r.BaseAddress + BitVec.ofNat _ (a.toNat - r.start) = a := by
        apply BitVec.eq_of_toNat_eq
        rw [toNat_base_add hfits (by omega)]
        unfold start
        omega
      refine ⟨a.toNat - r.start, ⟨hin, ?_⟩, ha⟩
      rw [Memory.take_drop_view m _ hin, ha, hsame]
  · simp only [hits_of_not_searchable hs, List.not_mem_nil, hs, false_and]

theorem hits_pairwise (hfits : r.stop ≤ 2 ^ b.bits) (hne : pattern ≠ []) :
    (r.hits m pattern).Pairwise (· < ·) := by
  have hpos := List.length_pos_of_ne_nil hne
  by_cases hs : r.Searchable m
  · rw [hits_of_searchable hs, List.pairwise_map]
    refine (occurrences_pairwise _ _).imp_of_mem (fun {i j} hi hj hij => ?_)
    rw [mem_occurrences hne, Memory.length_view] at hi hj
    rw [BitVec.lt_def, toNat_base_add hfits (by omega), toNat_base_add hfits (by omega)]
    omega
  · rw [hits_of_not_searchable hs]
    exact List.Pairwise.nil

end MemoryRegion

/-! ## What is found in all regions -/

namespace AddressSpace

variable {space : AddressSpace b} {pattern : ByteVector b} {regions : List (MemoryRegion b)}

/-- The offsets of a region of whole pages do not reach the end of `SIZE_T`. -/
theorem size_lt_of_pages {r : MemoryRegion b} (hpages : 0x1000 ∣ r.RegionSize.toNat) :
    r.RegionSize.toNat + 1 < 2 ^ b.bits := by
  have hsize := r.RegionSize.isLt
  obtain ⟨c, hc⟩ := hpages
  obtain ⟨e, he⟩ : 0x1000 ∣ 2 ^ b.bits := by
    cases b <;> decide
  omega

theorem searchRegion_yields {r : MemoryRegion b} (hpages : 0x1000 ∣ r.RegionSize.toNat)
    (found : List (DWORD_PTR b)) :
    Yields (fun n => space.searchRegion n pattern found r)
      (found ++ r.hits space.memory pattern.bytes) := by
  unfold searchRegion MemoryRegion.hits
  split_ifs with hfilter
  · rw [List.append_nil]
    exact Yields.const found
  · cases hread : space.memory.readProcessMemory r.BaseAddress r.RegionSize.toNat with
    | none =>
      simp only [List.append_nil]
      exact Yields.const found
    | some buffer =>
      obtain ⟨-, rfl⟩ := Memory.readProcessMemory_eq_some.mp hread
      have hlen := space.memory.length_view r.BaseAddress r.RegionSize.toNat
      have hroom := size_lt_of_pages hpages
      rw [← hlen] at hroom
      obtain ⟨i', hend⟩ := offsets_end r.BaseAddress hlen.symm hroom _
        (Nat.zero_add _) found
      rw [← List.range_eq_range'] at hend
      exact hend.yields.map Prod.snd

theorem searchRegions_yield (hpages : ∀ r ∈ regions, 0x1000 ∣ r.RegionSize.toNat)
    (found : List (DWORD_PTR b)) :
    Yields (fun n => regions.foldlM (fun found r => space.searchRegion n pattern found r) found)
      (found ++ regions.flatMap (·.hits space.memory pattern.bytes)) := by
  induction regions generalizing found with
  | nil =>
    rw [List.flatMap_nil, List.append_nil]
    exact Yields.const found
  | cons r regions ih =>
    have hrest := ih (fun r hr => hpages r (List.mem_cons_of_mem _ hr))
      (found ++ r.hits space.memory pattern.bytes)
    rw [List.append_assoc, ← List.flatMap_cons] at hrest
    simp only [List.foldlM_cons]
    exact (searchRegion_yields (hpages r List.mem_cons_self) found).bind hrest

/-- The search returns the occurrences of all regions, region by region. -/
theorem searchInMemory_yields (hpages : Yields (fun n => space.getMemoryPages n) regions) :
    Yields (fun n => space.searchInMemory n pattern)
      (regions.flatMap (·.hits space.memory pattern.bytes)) := by
  have hwhole : ∀ r ∈ regions, 0x1000 ∣ r.RegionSize.toNat := by
    obtain ⟨n, hn⟩ := hpages
    intro r hr
    obtain ⟨a, hquery⟩ := mem_getMemoryPages (hn n le_rfl) r hr
    exact space.whole_pages a r hquery
  exact hpages.bind (searchRegions_yield hwhole [])

section Exact

variable {m : Memory b} {p : List BYTE}
  (hasc : regions.Pairwise (fun r s => r.stop ≤ s.start))
  (hfits : ∀ r ∈ regions, r.stop ≤ 2 ^ b.bits) (hne : p ≠ [])
include hfits hne

theorem mem_flatMap_hits (a : LPVOID b) :
    a ∈ regions.flatMap (·.hits m p) ↔ ∃ r ∈ regions, r.Searchable m ∧ r.start ≤ a.toNat ∧
      a.toNat + p.length ≤ r.stop ∧ m.view a p.length = p := by
  rw [List.mem_flatMap]
  constructor
  · rintro ⟨r, hr, ha⟩
    exact ⟨r, hr, (MemoryRegion.mem_hits (hfits r hr) hne a).mp ha⟩
  · rintro ⟨r, hr, ha⟩
    exact ⟨r, hr, (MemoryRegion.mem_hits (hfits r hr) hne a).mpr ha⟩

include hasc in
theorem flatMap_hits_pairwise : (regions.flatMap (·.hits m p)).Pairwise (· < ·) := by
  have hpos := List.length_pos_of_ne_nil hne
  rw [List.pairwise_flatMap]
  constructor
  · exact fun r hr => MemoryRegion.hits_pairwise (hfits r hr) hne
  · refine hasc.imp_of_mem (fun {r s} hr hs hrs => ?_)
    intro x hx y hy
    have hxr := ((MemoryRegion.mem_hits (hfits r hr) hne x).mp hx).2.2.1
    have hys := ((MemoryRegion.mem_hits (hfits s hs) hne y).mp hy).2.1
    rw [BitVec.lt_def]
    omega

end Exact

end AddressSpace

/-- For a map of ascending regions the search finds exactly the occurrences that lie in
one region that it reads, each once and in ascending order. -/
theorem searchInMemory_exact {space : AddressSpace b} {regions : List (MemoryRegion b)}
    {pattern : ByteVector b} (hpages : Yields (fun n => space.getMemoryPages n) regions)
    (hasc : regions.Pairwise (fun r s => r.stop ≤ s.start))
    (hfits : ∀ r ∈ regions, r.stop ≤ 2 ^ b.bits) (hne : pattern.bytes ≠ []) :
    ∃ found, Yields (fun n => space.searchInMemory n pattern) found ∧ found.Pairwise (· < ·) ∧
      ∀ a, a ∈ found ↔ ∃ r ∈ regions, r.Searchable space.memory ∧ r.start ≤ a.toNat ∧
        a.toNat + pattern.bytes.length ≤ r.stop ∧
        space.memory.view a pattern.bytes.length = pattern.bytes := by
  refine ⟨_, AddressSpace.searchInMemory_yields hpages,
    AddressSpace.flatMap_hits_pairwise hasc hfits hne, fun a => ?_⟩
  exact AddressSpace.mem_flatMap_hits hfits hne a

/-- Three bytes in a row at the start of a region, searched for two of them. -/
theorem searchInMemory_exact_overlapping :
    let memory : Memory .x64 :=
      ⟨fun a => if a < 0x10003 then 7 else 0, fun _ => .debuggee, fun _ => true, fun _ => true⟩
    let regions : List (MemoryRegion .x64) :=
      [⟨0x10000, 0x1000, MEM_COMMIT, 0x04, 0x20000⟩, ⟨0x11000, 0xF000, 0x10000, PAGE_NOACCESS, 0⟩]
    let space := AddressSpace.ofRegions memory 0x10000 0x1FFFF regions (by decide)
    let pattern : ByteVector .x64 := ⟨[7, 7], by decide⟩
    ∃ found, Yields (fun n => space.searchInMemory n pattern) found ∧ found.Pairwise (· < ·) ∧
      ∀ a, a ∈ found ↔ ∃ r ∈ regions, r.Searchable space.memory ∧ r.start ≤ a.toNat ∧
        a.toNat + pattern.bytes.length ≤ r.stop ∧
        space.memory.view a pattern.bytes.length = pattern.bytes := by
  intro memory regions space pattern
  have hwalk : space.Walk 0x10000 regions (0x11000 + 0xF000) :=
    .step (by decide) rfl (.step (by decide) rfl (.stop (by decide)))
  exact searchInMemory_exact hwalk.pages (by decide) (by decide) (by decide)

/-! ## Two maps of the same memory -/

namespace AddressSpace

/-- The byte at the address is readable and lies in a region that is not skipped. -/
def ReadAt (regions : List (MemoryRegion b)) (m : Memory b) (a : LPVOID b) : Prop :=
  m.readable a = true ∧ ∃ r ∈ regions, r.Contains a ∧ r.State = MEM_COMMIT ∧
    r.Protect &&& PAGE_GUARD = 0 ∧ r.Protect ≠ PAGE_NOACCESS

/-- The pattern stands at the address, in bytes that the search may read. -/
structure StandsAt (regions : List (MemoryRegion b)) (m : Memory b) (p : List BYTE)
    (a : LPVOID b) : Prop where
  fits : a.toNat + p.length ≤ 2 ^ b.bits
  same : m.view a p.length = p
  read : ∀ k < p.length, ReadAt regions m (a + BitVec.ofNat _ k)

/-- No region starts between the first and the last of `k` bytes, and the region of the
first one can be read as a whole. -/
structure Uncut (regions : List (MemoryRegion b)) (m : Memory b) (a : LPVOID b) (k : ℕ) :
    Prop where
  start : ∀ r ∈ regions, a.toNat < r.start → a.toNat + k ≤ r.start
  readable : ∀ r ∈ regions, r.Contains a →
    ∀ j < r.RegionSize.toNat, m.readable (r.BaseAddress + BitVec.ofNat _ j) = true

theorem toNat_add_ofNat {a : LPVOID b} {k : ℕ} (h : a.toNat + k < 2 ^ b.bits) :
    (a + BitVec.ofNat _ k).toNat = a.toNat + k := by
  rw [BitVec.toNat_add, BitVec.toNat_ofNat, Nat.add_mod_mod, Nat.mod_eq_of_lt h]

theorem readable_of_searchable {r : MemoryRegion b} {m : Memory b} (h : r.Searchable m)
    (hfits : r.stop ≤ 2 ^ b.bits) {a : LPVOID b} (ha : r.Contains a) : m.readable a = true := by
  obtain ⟨hlow, hhigh⟩ := ha
  have hin : a.toNat - r.start < r.RegionSize.toNat := by
    unfold MemoryRegion.stop at hhigh
    unfold MemoryRegion.start at hlow ⊢
    omega
  have he : r.BaseAddress + BitVec.ofNat _ (a.toNat - r.start) = a := by
    apply BitVec.eq_of_toNat_eq
    rw [MemoryRegion.toNat_base_add hfits hin]
    omega
  exact he ▸ h.readable _ hin

theorem in_one_region_iff {regions : List (MemoryRegion b)} {m : Memory b} {p : List BYTE}
    (hasc : Ascending MemoryRegion.start MemoryRegion.stop regions)
    (hfits : ∀ r ∈ regions, r.stop ≤ 2 ^ b.bits) (hne : p ≠ []) (a : LPVOID b) :
    (∃ r ∈ regions, r.Searchable m ∧ r.start ≤ a.toNat ∧ a.toNat + p.length ≤ r.stop ∧
        m.view a p.length = p) ↔
      StandsAt regions m p a ∧ Uncut regions m a p.length := by
  have hpos := List.length_pos_of_ne_nil hne
  constructor
  · rintro ⟨r, hr, hs, hstart, hstop, hsame⟩
    have hstop' := hfits r hr
    have hra : r.Contains a := ⟨hstart, by omega⟩
    refine ⟨⟨by omega, hsame, fun k hk => ?_⟩, ⟨fun t ht hlow => ?_, fun t ht hta => ?_⟩⟩
    · have hc : r.Contains (a + BitVec.ofNat _ k) := by
        unfold MemoryRegion.Contains
        rw [toNat_add_ofNat (by omega)]
        omega
      exact ⟨readable_of_searchable hs hstop' hc, r, hr, hc, hs.committed, hs.noGuard, hs.access⟩
    · have hsize : t.start ≤ t.stop := Nat.le_add_right _ _
      rcases hasc.apart hr ht with rfl | hle | hle <;> omega
    · obtain rfl := hasc.eq_of_holds ht hr hta hra
      exact hs.readable
  · rintro ⟨⟨hfit, hsame, hread⟩, hcut, hwhole⟩
    obtain ⟨-, r, hr, hra, hcommit, hguard, haccess⟩ := hread 0 hpos
    have hzero : a + BitVec.ofNat _ 0 = a := BitVec.add_zero a
    rw [hzero] at hra
    obtain ⟨hlow, hhigh⟩ := hra
    refine ⟨r, hr, ⟨hcommit, hguard, haccess, hwhole r hr ⟨hlow, hhigh⟩⟩, hlow, ?_, hsame⟩
    by_contra hover
    -- the first byte behind `r` lies in a region that starts there
    obtain ⟨-, s, hs, ⟨hslow, hshigh⟩, -⟩ := hread (r.stop - a.toNat) (by omega)
    rw [toNat_add_ofNat (by omega)] at hslow hshigh
    have hcut' := hcut s hs
    rcases hasc.apart hr hs with rfl | hle | hle <;> omega

theorem mem_hits_iff {regions : List (MemoryRegion b)} {m : Memory b} {p : List BYTE}
    (hasc : Ascending MemoryRegion.start MemoryRegion.stop regions)
    (hfits : ∀ r ∈ regions, r.stop ≤ 2 ^ b.bits) (hne : p ≠ []) (a : LPVOID b) :
    a ∈ regions.flatMap (·.hits m p) ↔
      StandsAt regions m p a ∧ Uncut regions m a p.length := by
  rw [mem_flatMap_hits hfits hne]
  exact in_one_region_iff hasc hfits hne a

theorem standsAt_congr {regions regions' : List (MemoryRegion b)} {m m' : Memory b}
    (hbytes : m'.bytes = m.bytes) (hread : ∀ a, ReadAt regions' m' a ↔ ReadAt regions m a)
    {p : List BYTE} {a : LPVOID b} : StandsAt regions' m' p a ↔ StandsAt regions m p a := by
  have hview : m'.view a p.length = m.view a p.length := by
    simp only [Memory.view, hbytes]
  constructor
  · rintro ⟨hfit, hsame, hall⟩
    exact ⟨hfit, hview ▸ hsame, fun k hk => (hread _).mp (hall k hk)⟩
  · rintro ⟨hfit, hsame, hall⟩
    exact ⟨hfit, hview.trans hsame, fun k hk => (hread _).mpr (hall k hk)⟩

end AddressSpace

open AddressSpace in
/-- Two maps with the same bytes to search give the same result exactly if every
occurrence is uncut in both of them or in neither. -/
theorem searchInMemory_eq_iff {space space' : AddressSpace b}
    {regions regions' : List (MemoryRegion b)} {pattern : ByteVector b}
    (hpages : Yields (fun n => space.getMemoryPages n) regions)
    (hpages' : Yields (fun n => space'.getMemoryPages n) regions')
    (hasc : regions.Pairwise (fun r s => r.stop ≤ s.start))
    (hasc' : regions'.Pairwise (fun r s => r.stop ≤ s.start))
    (hfits : ∀ r ∈ regions, r.stop ≤ 2 ^ b.bits) (hfits' : ∀ r ∈ regions', r.stop ≤ 2 ^ b.bits)
    (hbytes : space'.memory.bytes = space.memory.bytes)
    (hread : ∀ a, ReadAt regions' space'.memory a ↔ ReadAt regions space.memory a)
    (hne : pattern.bytes ≠ []) :
    ∃ found found', Yields (fun n => space.searchInMemory n pattern) found ∧
      Yields (fun n => space'.searchInMemory n pattern) found' ∧
      (found = found' ↔ ∀ a, StandsAt regions space.memory pattern.bytes a →
        (Uncut regions space.memory a pattern.bytes.length ↔
          Uncut regions' space'.memory a pattern.bytes.length)) := by
  refine ⟨_, _, searchInMemory_yields hpages, searchInMemory_yields hpages', ?_⟩
  have hmem := mem_hits_iff (m := space.memory) hasc hfits hne
  have hmem' : ∀ a, a ∈ regions'.flatMap (·.hits space'.memory pattern.bytes) ↔
      StandsAt regions space.memory pattern.bytes a ∧
        Uncut regions' space'.memory a pattern.bytes.length := by
    intro a
    rw [mem_hits_iff hasc' hfits' hne, standsAt_congr hbytes hread]
  constructor
  · intro he a ha
    have hiff := hmem a
    rw [he, hmem' a] at hiff
    simpa only [ha, true_and] using hiff.symm
  · intro hcut
    apply (flatMap_hits_pairwise hasc hfits hne).eq_of_mem_iff
      (flatMap_hits_pairwise hasc' hfits' hne)
    intro a
    rw [hmem, hmem']
    exact and_congr_right (hcut a)

/-! A run of two bytes over a page boundary, in one region and in two. -/

namespace AddressSpace

def acrossPages : Memory .x64 where
  bytes a := if a = 0x10FFF then 0xAA else if a = 0x11000 then 0xBB else 0
  writer _ := .debuggee
  readable _ := true
  writable _ := true

def oneRegion : List (MemoryRegion .x64) := [⟨0x10000, 0x2000, MEM_COMMIT, 0x04, 0x20000⟩]

def twoRegions : List (MemoryRegion .x64) :=
  [⟨0x10000, 0x1000, MEM_COMMIT, 0x04, 0x20000⟩, ⟨0x11000, 0x1000, MEM_COMMIT, 0x02, 0x20000⟩]

def oneRegionSpace : AddressSpace .x64 :=
  ofRegions acrossPages 0x10000 0x12000 oneRegion (by decide)

def twoRegionsSpace : AddressSpace .x64 :=
  ofRegions acrossPages 0x10000 0x12000 twoRegions (by decide)

theorem oneRegionSpace_pages : Yields (fun n => oneRegionSpace.getMemoryPages n) oneRegion :=
  (Walk.step (by decide) rfl (.stop (by decide))).pages

theorem twoRegionsSpace_pages : Yields (fun n => twoRegionsSpace.getMemoryPages n) twoRegions :=
  (Walk.step (by decide) rfl (.step (by decide) rfl (.stop (by decide)))).pages

theorem readAt_oneRegion (a : LPVOID .x64) :
    ReadAt oneRegion acrossPages a ↔ 0x10000 ≤ a.toNat ∧ a.toNat < 0x12000 := by
  constructor
  · rintro ⟨-, r, hr, hc, -⟩
    obtain rfl := List.mem_singleton.mp hr
    exact hc
  · intro hc
    exact ⟨rfl, _, List.mem_singleton_self _, hc, by decide⟩

theorem readAt_twoRegions (a : LPVOID .x64) :
    ReadAt twoRegions acrossPages a ↔ 0x10000 ≤ a.toNat ∧ a.toNat < 0x12000 := by
  constructor
  · rintro ⟨-, r, hr, hc, -⟩
    rcases List.mem_cons.mp hr with rfl | hr
    · have hlow : 0x10000 ≤ a.toNat ∧ a.toNat < 0x11000 := hc
      omega
    · obtain rfl := List.mem_singleton.mp hr
      have hhigh : 0x11000 ≤ a.toNat ∧ a.toNat < 0x12000 := hc
      omega
  · rintro ⟨hlow, hhigh⟩
    rcases Nat.lt_or_ge a.toNat 0x11000 with hlt | hge
    · exact ⟨rfl, _, List.mem_cons_self, ⟨hlow, hlt⟩, by decide⟩
    · exact ⟨rfl, _, List.mem_cons_of_mem _ (List.mem_singleton_self _), ⟨hge, hhigh⟩, by decide⟩

theorem readAt_regions_iff (a : LPVOID .x64) :
    ReadAt twoRegions acrossPages a ↔ ReadAt oneRegion acrossPages a :=
  (readAt_twoRegions a).trans (readAt_oneRegion a).symm

end AddressSpace

open AddressSpace in
theorem searchInMemory_depends_on_cut :
    let pattern : ByteVector .x64 := ⟨[0xAA, 0xBB], by decide⟩
    (∀ a, ReadAt twoRegions twoRegionsSpace.memory a ↔ ReadAt oneRegion oneRegionSpace.memory a) ∧
      twoRegionsSpace.memory.bytes = oneRegionSpace.memory.bytes ∧
      ∃ found found', Yields (fun n => oneRegionSpace.searchInMemory n pattern) found ∧
        Yields (fun n => twoRegionsSpace.searchInMemory n pattern) found' ∧
        0x10FFF ∈ found ∧ 0x10FFF ∉ found' := by
  intro pattern
  refine ⟨readAt_regions_iff, rfl, _, _, searchInMemory_yields oneRegionSpace_pages,
    searchInMemory_yields twoRegionsSpace_pages, ?_, ?_⟩
  · rw [mem_flatMap_hits (by decide) (by decide)]
    exact ⟨_, List.mem_singleton_self _, ⟨by decide, by decide, by decide, fun _ _ => rfl⟩,
      by decide, by decide, by decide⟩
  · rw [mem_flatMap_hits (by decide) (by decide)]
    rintro ⟨r, hr, -, hstart, hstop, -⟩
    revert r
    decide

open AddressSpace in
theorem searchInMemory_eq_iff_cut :
    let pattern : ByteVector .x64 := ⟨[0xAA, 0xBB], by decide⟩
    ∃ found found', Yields (fun n => oneRegionSpace.searchInMemory n pattern) found ∧
      Yields (fun n => twoRegionsSpace.searchInMemory n pattern) found' ∧
      (found = found' ↔ ∀ a, StandsAt oneRegion acrossPages pattern.bytes a →
        (Uncut oneRegion acrossPages a pattern.bytes.length ↔
          Uncut twoRegions acrossPages a pattern.bytes.length)) :=
  searchInMemory_eq_iff oneRegionSpace_pages twoRegionsSpace_pages (by decide) (by decide)
    (by decide)
    (by decide) rfl readAt_regions_iff (by decide)

end RoboDbg
