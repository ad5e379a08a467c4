import RoboDbg.Foundation.Segments
import RoboDbg.MemorySearch

/-!
# Pages of the debuggee

The system keeps its attributes page by page. `VirtualQueryEx` starts at the page of its
address and goes on as long as the attributes are the same, so the walk of
`getMemoryPages` cuts the application's pages where they change, and the walk of
`getPageByAddress` stops at the stretch around its target.
-/

namespace RoboDbg

open Loops Tilings Segments

variable {b : Build}

/-- The attributes that `VirtualQueryEx` compares. -/
structure Page (b : Build) where
  AllocationBase : LPVOID b
  State : DWORD
  Protect : DWORD
  /-- `Type` in the source. -/
  Kind : DWORD
deriving DecidableEq

namespace Page

def shown (page : Page b) : DWORD × DWORD × DWORD := (page.State, page.Protect, page.Kind)

/-- A page that `searchInMemory` does not skip. -/
def Accessible (page : Page b) : Prop :=
  page.State = MEM_COMMIT ∧ page.Protect &&& PAGE_GUARD = 0 ∧ page.Protect ≠ PAGE_NOACCESS

instance (page : Page b) : Decidable page.Accessible := inferInstanceAs (Decidable (_ ∧ _))

end Page

/-- The pages that an application can use are those from `first` to `limit`. -/
structure PageTable (b : Build) where
  page : ℕ → Page b
  bytes : LPVOID b → BYTE
  first : ℕ
  limit : ℕ
  nonempty : first < limit
  fits : limit * 0x1000 < 2 ^ b.bits
  /-- The protection that a page gets when one is asked for; `none` for one it cannot have. -/
  grants : ℕ → DWORD → Option DWORD
  /-- A page can have what it was given once more. -/
  settled : ∀ p x y, grants p x = some y → grants p y = some y
  kept : ∀ p, (page p).State = MEM_COMMIT → grants p (page p).Protect = some (page p).Protect

namespace PageTable

variable (t : PageTable b)

def address (b : Build) (i : ℕ) : LPVOID b := BitVec.ofNat _ (i * 0x1000)

def pageOf (a : LPVOID b) : ℕ := a.toNat / 0x1000

/-- The region of the pages from `i` to `j`, with the attributes of the first. -/
def region (i j : ℕ) : MemoryRegion b where
  BaseAddress := address b i
  RegionSize := BitVec.ofNat _ ((j - i) * 0x1000)
  State := (t.page i).State
  Protect := (t.page i).Protect
  Kind := (t.page i).Kind

def VirtualQueryEx (lpAddress : LPVOID b) : Option (MemoryRegion b) :=
  let i := pageOf lpAddress
  if i < t.limit then some (t.region i (reach t.page (t.page i) i (t.limit - i))) else none

/-- `ReadProcessMemory` reads accessible pages. No statement is about writes. -/
def memory : Memory b where
  bytes := t.bytes
  writer _ := .debuggee
  readable a := (t.page (pageOf a)).Accessible
  writable a := (t.page (pageOf a)).Accessible

theorem address_toNat {i : ℕ} (h : i ≤ t.limit) : (address b i).toNat = i * 0x1000 := by
  have hle : i * 0x1000 ≤ t.limit * 0x1000 := Nat.mul_le_mul_right _ h
  exact Nat.mod_eq_of_lt (hle.trans_lt t.fits)

theorem pageOf_address {i : ℕ} (h : i ≤ t.limit) : pageOf (address b i) = i := by
  rw [pageOf, t.address_toNat h]
  exact Nat.mul_div_cancel _ (by decide)

theorem region_start {i j : ℕ} (hi : i ≤ t.limit) : (t.region i j).start = i * 0x1000 :=
  t.address_toNat hi

theorem region_size {i j : ℕ} (hj : j ≤ t.limit) :
    (t.region i j).RegionSize.toNat = (j - i) * 0x1000 := by
  have hle : (j - i) * 0x1000 ≤ t.limit * 0x1000 := Nat.mul_le_mul_right _ (by omega)
  exact Nat.mod_eq_of_lt (hle.trans_lt t.fits)

theorem region_stop {i j : ℕ} (hij : i ≤ j) (hj : j ≤ t.limit) :
    (t.region i j).stop = j * 0x1000 := by
  have hstart : (t.region i j).BaseAddress.toNat = i * 0x1000 := t.address_toNat (hij.trans hj)
  rw [MemoryRegion.stop, hstart, t.region_size hj]
  omega

theorem region_fits {i j : ℕ} (hij : i ≤ j) (hj : j ≤ t.limit) :
    (t.region i j).stop < 2 ^ b.bits := by
  rw [t.region_stop hij hj]
  exact (Nat.mul_le_mul_right _ hj).trans_lt t.fits

theorem region_end {i j : ℕ} (hij : i ≤ j) (hj : j ≤ t.limit) :
    (t.region i j).BaseAddress + (t.region i j).RegionSize = address b j := by
  apply BitVec.eq_of_toNat_eq
  rw [MemoryRegion.toNat_end (t.region_fits hij hj), t.region_stop hij hj, t.address_toNat hj]

theorem region_contains {i j : ℕ} (hij : i ≤ j) (hj : j ≤ t.limit) (a : LPVOID b) :
    (t.region i j).Contains a ↔ i ≤ pageOf a ∧ pageOf a < j := by
  rw [MemoryRegion.Contains, t.region_start (hij.trans hj), t.region_stop hij hj, pageOf]
  omega

def space : AddressSpace b where
  memory := t.memory
  lpMinimumApplicationAddress := address b t.first
  lpMaximumApplicationAddress := BitVec.ofNat _ (t.limit * 0x1000 - 1)
  virtualQueryEx := t.VirtualQueryEx
  whole_pages a r hr := by
    simp only [VirtualQueryEx] at hr
    split_ifs at hr
    obtain rfl := Option.some.inj hr
    have hle : reach t.page (t.page (pageOf a)) (pageOf a) (t.limit - pageOf a) ≤ _ := reach_le
    rw [t.region_size (by omega)]
    exact Nat.dvd_mul_left _ _

def ofPages (page : ℕ → Page b) (bytes : LPVOID b → BYTE) (first limit : ℕ)
    (nonempty : first < limit) (fits : limit * 0x1000 < 2 ^ b.bits) : PageTable b where
  page := page
  bytes := bytes
  first := first
  limit := limit
  nonempty := nonempty
  fits := fits
  grants _ x := some x
  settled _ _ _ _ := rfl
  kept _ _ := rfl

/-! ## The walks -/

def regions (ss : List (ℕ × ℕ)) : List (MemoryRegion b) := ss.map (fun s => t.region s.1 s.2)

variable {t}

theorem maximum_toNat : t.space.lpMaximumApplicationAddress.toNat = t.limit * 0x1000 - 1 :=
  Nat.mod_eq_of_lt ((Nat.sub_le _ _).trans_lt t.fits)

theorem VirtualQueryEx_eq {i j : ℕ} (hij : i < j) (hj : j ≤ t.limit)
    (same : ∀ x, i ≤ x → x < j → t.page x = t.page i)
    (other : j < t.limit → t.page j ≠ t.page i) :
    t.VirtualQueryEx (address b i) = some (t.region i j) := by
  have hi : i ≤ t.limit := hij.le.trans hj
  simp only [VirtualQueryEx, t.pageOf_address hi, if_pos (hij.trans_le hj),
    reach_eq hij.le hj same other]

/-- The queries from a page on find the stretches behind it. -/
theorem walk {i : ℕ} {ss : List (ℕ × ℕ)} (h : Cut t.page i ss t.limit) :
    t.space.Walk (address b i) (t.regions ss) (address b t.limit) := by
  generalize hk : t.limit = k at h
  induction h with
  | nil i =>
    subst hk
    refine .stop (fun hlt => absurd hlt ?_)
    rw [BitVec.lt_def, t.address_toNat le_rfl, maximum_toNat]
    exact Nat.not_lt.mpr (Nat.sub_le _ _)
  | @cons i j k ss hij same other rest ih =>
    subst hk
    have hj : j ≤ t.limit := rest.tiles.le
    have hlt : address b i < t.space.lpMaximumApplicationAddress := by
      rw [BitVec.lt_def, t.address_toNat (hij.le.trans hj), maximum_toNat]
      omega
    refine .step hlt (VirtualQueryEx_eq hij hj same other) ?_
    rw [t.region_end hij.le hj]
    exact ih rfl

theorem exists_pages (t : PageTable b) : ∃ ss, Cut t.page t.first ss t.limit ∧
    Yields (fun n => t.space.getMemoryPages n) (t.regions ss) := by
  obtain ⟨ss, hcut⟩ := exists_cut t.page t.nonempty.le
  exact ⟨ss, hcut, (walk hcut).pages⟩

theorem mem_regions {i : ℕ} {ss : List (ℕ × ℕ)} (h : Cut t.page i ss t.limit)
    {r : MemoryRegion b} (hr : r ∈ t.regions ss) :
    ∃ s ∈ ss, i ≤ s.1 ∧ s.1 < s.2 ∧ s.2 ≤ t.limit ∧ t.region s.1 s.2 = r := by
  obtain ⟨s, hs, rfl⟩ := List.mem_map.mp hr
  exact ⟨s, hs, h.tiles.le_lo hs, h.tiles.lo_lt_hi hs, h.tiles.hi_le hs, rfl⟩

theorem pages_of_regions {i : ℕ} {ss : List (ℕ × ℕ)} (h : Cut t.page i ss t.limit) :
    (t.regions ss).map (fun r => (r.start / 0x1000, r.stop / 0x1000)) = ss := by
  rw [regions, List.map_map]
  refine (List.map_congr_left (fun s hs => ?_)).trans (List.map_id ss)
  have hlt := h.tiles.lo_lt_hi hs
  have hle := h.tiles.hi_le hs
  have hstart : (t.region s.1 s.2).start = s.1 * 0x1000 := t.region_start (hlt.le.trans hle)
  have hstop : (t.region s.1 s.2).stop = s.2 * 0x1000 := t.region_stop hlt.le hle
  have hdiv : ∀ k : ℕ, k * 0x1000 / 0x1000 = k := fun k => Nat.mul_div_cancel k (by decide)
  rw [Function.comp_apply, hstart, hstop, hdiv, hdiv]
  rfl

theorem regions_pairwise {i : ℕ} {ss : List (ℕ × ℕ)} (h : Cut t.page i ss t.limit) :
    (t.regions ss).Pairwise (fun r s => r.stop ≤ s.start) := by
  rw [regions, List.pairwise_map]
  refine h.tiles.ascending.imp_of_mem (fun {s u} hs hu hsu => ?_)
  have hle := h.tiles.hi_le hu
  have hlt := h.tiles.lo_lt_hi hu
  rw [t.region_stop (h.tiles.lo_lt_hi hs).le (h.tiles.hi_le hs), t.region_start (hlt.le.trans hle)]
  exact Nat.mul_le_mul_right _ hsu

theorem region_eq_iff {t t' : PageTable b} {i j : ℕ} :
    t.region i j = t'.region i j ↔ (t.page i).shown = (t'.page i).shown := by
  simp only [region, Page.shown, MemoryRegion.mk.injEq, Prod.mk.injEq, true_and]

end PageTable

open PageTable in
/-- The listed regions show the attributes of every page that an application can use and
between which neighbours they change, and nothing else. -/
theorem getMemoryPages_eq_iff {t t' : PageTable b} (hfirst : t'.first = t.first)
    (hlimit : t'.limit = t.limit) :
    ∃ regions regions', Yields (fun n => t.space.getMemoryPages n) regions ∧
      Yields (fun n => t'.space.getMemoryPages n) regions' ∧
      (regions = regions' ↔ ∀ p, t.first ≤ p → p < t.limit →
        (t.page p).shown = (t'.page p).shown ∧
          (p + 1 < t.limit → (t.page p = t.page (p + 1) ↔ t'.page p = t'.page (p + 1)))) := by
  obtain ⟨ss, hcut, hpages⟩ := exists_pages t
  obtain ⟨ss', hcut', hpages'⟩ := exists_pages t'
  rw [hfirst, hlimit] at hcut'
  refine ⟨_, _, hpages, hpages', ?_⟩
  constructor
  · intro he p hfp hpl
    have hss : ss = ss' := by
      rw [← pages_of_regions hcut, he]
      exact pages_of_regions (hlimit.symm ▸ hcut')
    subst hss
    refine ⟨?_, (hcut.eq_iff hcut').mp rfl p hfp⟩
    obtain ⟨s, hs, hsp, hps⟩ := hcut.tiles.exists_mem hfp hpl
    have hregion : t.region s.1 s.2 = t'.region s.1 s.2 := List.map_inj_left.mp he s hs
    rw [hcut.same_label hs hsp hps, hcut'.same_label hs hsp hps]
    exact region_eq_iff.mp hregion
  · intro hsame
    obtain rfl : ss = ss' := (hcut.eq_iff hcut').mpr
      (fun p hfp hpl => (hsame p hfp (by omega)).2 hpl)
    refine List.map_congr_left (fun s hs => region_eq_iff.mpr (hsame s.1 ?_ ?_).1)
    · exact hcut.tiles.le_lo hs
    · exact (hcut.tiles.lo_lt_hi hs).trans_le (hcut.tiles.hi_le hs)

open PageTable in
/-- Two pages of one allocation, and the same two of two allocations. -/
theorem getMemoryPages_eq_iff_allocations :
    let page : ℕ → Page .x64 := fun _ => ⟨0x10000, MEM_COMMIT, 0x04, 0x20000⟩
    let page' : ℕ → Page .x64 := Function.update page 17 ⟨0x11000, MEM_COMMIT, 0x04, 0x20000⟩
    let t := ofPages page (fun _ => 0) 16 18 (by decide) (by decide)
    let t' := ofPages page' (fun _ => 0) 16 18 (by decide) (by decide)
    ∃ regions regions', Yields (fun n => t.space.getMemoryPages n) regions ∧
      Yields (fun n => t'.space.getMemoryPages n) regions' ∧
      (regions = regions' ↔ ∀ p, t.first ≤ p → p < t.limit →
        (t.page p).shown = (t'.page p).shown ∧
          (p + 1 < t.limit → (t.page p = t.page (p + 1) ↔ t'.page p = t'.page (p + 1)))) := by
  intro page page' t t'
  exact getMemoryPages_eq_iff rfl rfl

end RoboDbg
