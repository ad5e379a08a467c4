import RoboDbg.PageTable

/-!
# Changing protections

`changeMemoryProtection` asks for one protection on all pages of a range. The pages have
to be committed pages of one allocation, and none of them is changed if one cannot have
the protection. A caller that keeps the region of `getPageByAddress` can go back to it.
-/

namespace RoboDbg

open Loops Tilings Segments

variable {b : Build}

namespace PageTable

/-- The first page of a range, and the one behind its last. -/
def pagesOf (base : LPVOID b) (size : SIZE_T b) : ℕ × ℕ :=
  (pageOf base, (base.toNat + size.toNat + 0xFFF) / 0x1000)

/-- Whether all pages from `i` to `k` can be given the protection. -/
def Changeable (t : PageTable b) (i k : ℕ) (flNewProtect : DWORD) : Prop :=
  k ≤ t.limit ∧ ∀ p ∈ List.range' i (k - i), (t.page p).State = MEM_COMMIT ∧
    (t.page p).AllocationBase = (t.page i).AllocationBase ∧ (t.grants p flNewProtect).isSome

instance (t : PageTable b) (i k : ℕ) (flNewProtect : DWORD) :
    Decidable (t.Changeable i k flNewProtect) :=
  inferInstanceAs (Decidable (_ ∧ _))

def protectPage (t : PageTable b) (i k : ℕ) (flNewProtect : DWORD) (p : ℕ) : Page b :=
  if i ≤ p ∧ p < k then
    { t.page p with Protect := (t.grants p flNewProtect).getD (t.page p).Protect }
  else t.page p

theorem protectPage_kept (t : PageTable b) (i k : ℕ) (flNewProtect : DWORD) (p : ℕ)
    (h : (t.protectPage i k flNewProtect p).State = MEM_COMMIT) :
    t.grants p (t.protectPage i k flNewProtect p).Protect =
      some (t.protectPage i k flNewProtect p).Protect := by
  unfold protectPage at h ⊢
  split_ifs at h ⊢ with hin
  · cases hgrant : t.grants p flNewProtect with
    | none => exact t.kept p h
    | some y => exact t.settled p _ y hgrant
  · exact t.kept p h

def protect (t : PageTable b) (i k : ℕ) (flNewProtect : DWORD) : PageTable b :=
  { t with
    page := t.protectPage i k flNewProtect
    kept := fun p h => t.protectPage_kept i k flNewProtect p h }

/-- The protection of the first page before, and the pages after the call. -/
def VirtualProtectEx (t : PageTable b) (lpAddress : LPVOID b) (dwSize : SIZE_T b)
    (flNewProtect : DWORD) : Option (DWORD × PageTable b) :=
  let r := pagesOf lpAddress dwSize
  if dwSize ≠ 0 ∧ t.Changeable r.1 r.2 flNewProtect then
    some ((t.page r.1).Protect, t.protect r.1 r.2 flNewProtect)
  else none

def changeProtection (baseAddress : LPVOID b) (regionSize : SIZE_T b) (newProtect : DWORD)
    (t : PageTable b) : Bool × PageTable b :=
  match t.VirtualProtectEx baseAddress regionSize newProtect with
  | some (_, t') => (true, t')
  | none => (false, t)

def changeMemoryProtection (page : MemoryRegion b) (newProtect : DWORD) (t : PageTable b) :
    Bool × PageTable b :=
  t.changeProtection page.BaseAddress page.RegionSize newProtect

theorem changeProtection_true {t t' : PageTable b} {base : LPVOID b} {size : SIZE_T b}
    {new : DWORD} (h : t.changeProtection base size new = (true, t')) :
    size ≠ 0 ∧ t.Changeable (pagesOf base size).1 (pagesOf base size).2 new ∧
      t' = t.protect (pagesOf base size).1 (pagesOf base size).2 new := by
  simp only [changeProtection, VirtualProtectEx] at h
  split_ifs at h with hcan
  · exact ⟨hcan.1, hcan.2, (Prod.mk.inj h).2.symm⟩
  · exact absurd (Prod.mk.inj h).1 Bool.false_ne_true

theorem changeProtection_false {t t' : PageTable b} {base : LPVOID b} {size : SIZE_T b}
    {new : DWORD} (h : t.changeProtection base size new = (false, t')) : t' = t := by
  simp only [changeProtection, VirtualProtectEx] at h
  split_ifs at h with hcan
  · exact absurd (Prod.mk.inj h).1.symm Bool.false_ne_true
  · exact (Prod.mk.inj h).2.symm

theorem pagesOf_region (t : PageTable b) {i j : ℕ} (hij : i ≤ j) (hj : j ≤ t.limit) :
    pagesOf (t.region i j).BaseAddress (t.region i j).RegionSize = (i, j) := by
  have hstart : (t.region i j).BaseAddress.toNat = i * 0x1000 := t.address_toNat (hij.trans hj)
  simp only [pagesOf, pageOf, hstart, t.region_size hj, Prod.mk.injEq]
  omega

/-- The region around an address: a stretch of pages with the same attributes. -/
structure Around (t : PageTable b) (target : LPVOID b) (i j : ℕ) : Prop where
  first : t.first ≤ i
  limit : j ≤ t.limit
  low : i ≤ pageOf target
  high : pageOf target < j
  same : ∀ x, i ≤ x → x < j → t.page x = t.page i
  below : t.first < i → t.page (i - 1) ≠ t.page i
  above : j < t.limit → t.page j ≠ t.page i

theorem getPageByAddress_yields (t : PageTable b) (target : LPVOID b) :
    ∃ r, Yields (fun n => t.space.getPageByAddress n target) r ∧
      ((∃ i j, t.Around target i j ∧ r = t.region i j) ∨
        (r = .invalid ∧ ¬ (t.first ≤ pageOf target ∧ pageOf target < t.limit))) := by
  obtain ⟨ss, hcut⟩ := exists_cut t.page t.nonempty.le
  have hfits : ∀ r ∈ t.regions ss, r.stop < 2 ^ b.bits := by
    intro r hr
    obtain ⟨s, -, -, hlt, hle, rfl⟩ := mem_regions hcut hr
    exact t.region_fits hlt.le hle
  obtain ⟨e', hend⟩ := (walk hcut).page_end_of_fits hfits target
  refine ⟨_, hend.yields.map (fun r => r.2.getD .invalid), ?_⟩
  cases hfind : (t.regions ss).find? (fun r => r.Contains target) with
  | none =>
    refine Or.inr ⟨rfl, fun ⟨hlow, hhigh⟩ => ?_⟩
    obtain ⟨s, hs, hsp, hps⟩ := hcut.tiles.exists_mem hlow hhigh
    have hnot := List.find?_eq_none.mp hfind _ (List.mem_map_of_mem hs)
    have hcontains := t.region_contains (hsp.trans hps.le) (hcut.tiles.hi_le hs) target
    exact hnot (decide_eq_true (hcontains.mpr ⟨hsp, hps⟩))
  | some r =>
    have hr := List.mem_of_find?_eq_some hfind
    have hc : r.Contains target := by simpa using List.find?_some hfind
    obtain ⟨s, hs, hfirst, hlt, hle, rfl⟩ := mem_regions hcut hr
    obtain ⟨hlow, hhigh⟩ := (t.region_contains hlt.le hle target).mp hc
    refine Or.inl ⟨s.1, s.2, ⟨hfirst, hle, hlow, hhigh,
      fun x hx hxs => hcut.same_label hs hx hxs, fun hbelow => ?_, hcut.label_stop_ne hs⟩, rfl⟩
    obtain ⟨x, hx⟩ : ∃ x, s.1 = x + 1 := ⟨s.1 - 1, by omega⟩
    rw [hx, Nat.add_sub_cancel]
    exact (hcut.starts_iff (by omega) (by omega)).mp ⟨s, hs, hx⟩

namespace Around

variable {t : PageTable b} {target : LPVOID b} {i j i' j' : ℕ}

theorem start_le (h : t.Around target i j) (h' : t.Around target i' j') : i ≤ i' := by
  by_contra hlt
  have hlow := h.low
  have hhigh := h'.high
  have hlimit := h'.first
  refine h.below (by omega) ?_
  exact (h'.same (i - 1) (by omega) (by omega)).trans (h'.same i (by omega) (by omega)).symm

theorem stop_le (h : t.Around target i j) (h' : t.Around target i' j') : j' ≤ j := by
  by_contra hlt
  have hlimit := h'.limit
  have hhigh := h.high
  have hlow := h'.low
  have hpage : t.page (pageOf target) = t.page i := h.same _ h.low h.high
  refine h.above (by omega) ((h'.same j (by omega) (by omega)).trans ?_)
  exact (h'.same (pageOf target) hlow (by omega)).symm.trans hpage

end Around

theorem getPageByAddress_of_around {t : PageTable b} {target : LPVOID b} {i j : ℕ}
    (h : t.Around target i j) :
    Yields (fun n => t.space.getPageByAddress n target) (t.region i j) := by
  obtain ⟨r, hyields, ⟨i', j', h', rfl⟩ | ⟨-, hout⟩⟩ := getPageByAddress_yields t target
  · obtain rfl := le_antisymm (h.start_le h') (h'.start_le h)
    obtain rfl := le_antisymm (h'.stop_le h) (h.stop_le h')
    exact hyields
  · exact absurd ⟨h.first.trans h.low, h.high.trans_le h.limit⟩ hout

/-! ## Going back -/

theorem protect_protect {t : PageTable b} {i j : ℕ} {new old : DWORD}
    (hold : ∀ x, i ≤ x → x < j → t.grants x old = some (t.page x).Protect) :
    (t.protect i j new).protect i j old = t := by
  have hpage : (t.protect i j new).protectPage i j old = t.page := by
    funext x
    by_cases hx : i ≤ x ∧ x < j
    · simp only [protectPage, protect, if_pos hx, hold x hx.1 hx.2, Option.getD_some]
    · simp only [protectPage, protect, if_neg hx]
  cases t
  simp only [protect] at hpage ⊢
  simp only [hpage]

theorem changeMemoryProtection_back {t t' : PageTable b} {target : LPVOID b} {i j : ℕ}
    {new : DWORD} (ha : t.Around target i j)
    (h : t.changeMemoryProtection (t.region i j) new = (true, t')) :
    t'.changeMemoryProtection (t.region i j) (t.region i j).Protect = (true, t) := by
  have hij : i ≤ j := ha.low.trans ha.high.le
  obtain ⟨hsize, hcan, rfl⟩ := changeProtection_true h
  have hpages := t.pagesOf_region hij ha.limit
  rw [hpages] at hcan ⊢
  have hcommit : ∀ x, i ≤ x → x < j → (t.page x).State = MEM_COMMIT := fun x hx hxj =>
    (hcan.2 x (List.mem_range'_1.mpr ⟨hx, by omega⟩)).1
  have hold : ∀ x, i ≤ x → x < j →
      t.grants x (t.region i j).Protect = some (t.page x).Protect := by
    intro x hx hxj
    have hkept := t.kept x (hcommit x hx hxj)
    have hsame : (t.region i j).Protect = (t.page x).Protect := by rw [ha.same x hx hxj, region]
    rwa [hsame]
  have hback : (t.protect i j new).Changeable i j (t.region i j).Protect := by
    refine ⟨ha.limit, fun x hx => ?_⟩
    obtain ⟨hlow, hhigh⟩ := List.mem_range'_1.mp hx
    have hin : i ≤ x ∧ x < j := ⟨hlow, by omega⟩
    have hfirst : i ≤ i ∧ i < j := ⟨le_rfl, hlow.trans_lt hin.2⟩
    have hgrant : (t.protect i j new).grants x (t.region i j).Protect = _ := hold x hlow hin.2
    simp only [protect, protectPage, if_pos hin, if_pos hfirst, hcommit x hlow hin.2, true_and]
    exact ⟨(hcan.2 x hx).2.1, Option.isSome_of_eq_some hgrant⟩
  simp only [changeMemoryProtection, changeProtection, VirtualProtectEx, hpages, hsize, ne_eq,
    not_false_eq_true, hback, and_self, if_true, protect_protect hold]

/-- Regions are looked up and get other protections, one after another and each in the
map that the changes before it have left; the list keeps what was found. Calls that
change nothing may come in between. -/
inductive Opened : PageTable b → List (MemoryRegion b) → PageTable b → Prop
  | none (t : PageTable b) : Opened t [] t
  | change {t t' t'' : PageTable b} {r : MemoryRegion b} {rs : List (MemoryRegion b)}
      {target : LPVOID b} {new : DWORD}
      (hpage : Yields (fun n => t.space.getPageByAddress n target) r)
      (h : t.changeMemoryProtection r new = (true, t')) (rest : Opened t' rs t'') :
      Opened t (r :: rs) t''
  | refused {t t' t'' : PageTable b} {base : LPVOID b} {size : SIZE_T b}
      {rs : List (MemoryRegion b)} {new : DWORD}
      (h : t.changeProtection base size new = (false, t')) (rest : Opened t' rs t'') :
      Opened t rs t''

/-- Gives the regions of a list their protections back, the last one first. -/
def closeAll : List (MemoryRegion b) → PageTable b → Bool × PageTable b
  | [], t => (true, t)
  | r :: rs, t =>
    let inner := closeAll rs t
    let outer := inner.2.changeMemoryProtection r r.Protect
    (inner.1 && outer.1, outer.2)

/-- The size of the invalid region. -/
theorem changeMemoryProtection_invalid {t t' : PageTable b} {new : DWORD}
    (h : t.changeMemoryProtection .invalid new = (true, t')) : False :=
  (changeProtection_true h).1 rfl

end PageTable

open PageTable in
/-- Protections that are given back in the opposite order are all accepted, and leave the
pages as they were before the first change. -/
theorem changeMemoryProtection_nested {t t' : PageTable b} {rs : List (MemoryRegion b)}
    (h : Opened t rs t') : closeAll rs t' = (true, t) := by
  induction h with
  | none t => rfl
  | @change t t' t'' r rs target new hpage h rest ih =>
    obtain ⟨r', hyields, hregion | ⟨hinvalid, -⟩⟩ := getPageByAddress_yields t target
    · obtain ⟨i, j, ha, rfl⟩ := hregion
      obtain rfl := hpage.unique hyields
      simp only [closeAll, ih, changeMemoryProtection_back ha h, Bool.and_self]
    · obtain rfl := hinvalid ▸ hpage.unique hyields
      exact (changeMemoryProtection_invalid h).elim
  | refused h rest ih =>
    rw [ih, changeProtection_false h]

open PageTable in
theorem changeMemoryProtection_nested_twice :
    let t : PageTable .x64 := ofPages (fun p => if p < 18 then ⟨0x10000, MEM_COMMIT, 0x04, 0x20000⟩
      else ⟨0, 0x10000, PAGE_NOACCESS, 0⟩) (fun _ => 0) 16 20 (by decide) (by decide)
    let rs : List (MemoryRegion .x64) := [⟨0x10000, 0x2000, MEM_COMMIT, 0x04, 0x20000⟩,
      ⟨0x10000, 0x2000, MEM_COMMIT, 0x02, 0x20000⟩]
    closeAll rs ((t.protect 16 18 0x02).protect 16 18 PAGE_NOACCESS) = (true, t) := by
  intro t rs
  have hsplit : ∀ x, 16 ≤ x → x < 18 → x = 16 ∨ x = 17 := fun x hx hx' => by omega
  have hfirst : t.Around 0x10800 16 18 := by
    refine ⟨le_rfl, by decide, by decide, by decide, fun x hx hx' => ?_, fun h => ?_, fun _ => ?_⟩
    · rcases hsplit x hx hx' with rfl | rfl <;> rfl
    · exact absurd h (lt_irrefl _)
    · decide
  have hsecond : (t.protect 16 18 0x02).Around 0x10800 16 18 := by
    refine ⟨le_rfl, by decide, by decide, by decide, fun x hx hx' => ?_, fun h => ?_, fun _ => ?_⟩
    · rcases hsplit x hx hx' with rfl | rfl <;> rfl
    · exact absurd h (lt_irrefl _)
    · decide
  exact changeMemoryProtection_nested (.change (getPageByAddress_of_around hfirst) rfl
    (.change (getPageByAddress_of_around hsecond) rfl (.none _)))

/-! ## Search between boundaries -/

namespace PageTable

def lastPage (a : LPVOID b) (k : ℕ) : ℕ := (a.toNat + k - 1) / 0x1000

theorem region_searchable {t : PageTable b} {i j : ℕ} (hij : i < j) (hj : j ≤ t.limit)
    (same : ∀ x, i ≤ x → x < j → t.page x = t.page i) :
    (t.region i j).Searchable t.memory ↔ (t.page i).Accessible := by
  constructor
  · exact fun h => ⟨h.committed, h.noGuard, h.access⟩
  · intro h
    refine ⟨h.1, h.2.1, h.2.2, fun k hk => decide_eq_true ?_⟩
    have hfits := t.region_fits hij.le hj
    have hstart : (t.region i j).start = i * 0x1000 := t.region_start (hij.le.trans hj)
    rw [t.region_size hj] at hk
    have hk' : k < (t.region i j).RegionSize.toNat := by rwa [t.region_size hj]
    have hpage : pageOf ((t.region i j).BaseAddress + BitVec.ofNat _ k) = i + k / 0x1000 := by
      rw [pageOf, MemoryRegion.toNat_base_add hfits.le hk', hstart]
      omega
    rw [hpage, same _ (Nat.le_add_right _ _) (by omega)]
    exact h

/-- An occurrence whose pages the debuggee can read and all have the same attributes. -/
structure Occurs (t : PageTable b) (p : List BYTE) (a : LPVOID b) : Prop where
  view : t.memory.view a p.length = p
  low : t.first ≤ pageOf a
  last : lastPage a p.length < t.limit
  accessible : (t.page (pageOf a)).Accessible
  same : ∀ x, pageOf a ≤ x → x ≤ lastPage a p.length → t.page x = t.page (pageOf a)

/-- An occurrence lies in one of the regions if no attribute changes in it. -/
theorem in_stretch_iff {t : PageTable b} {ss : List (ℕ × ℕ)} {p : List BYTE} {a : LPVOID b}
    (hcut : Cut t.page t.first ss t.limit) (hpos : 0 < p.length) :
    (∃ r ∈ t.regions ss, r.Searchable t.memory ∧ r.start ≤ a.toNat ∧
        a.toNat + p.length ≤ r.stop ∧ t.memory.view a p.length = p) ↔ t.Occurs p a := by
  constructor
  · rintro ⟨r, hr, hsearch, hstart, hstop, hview⟩
    obtain ⟨s, hs, hfirst, hlt, hle, rfl⟩ := mem_regions hcut hr
    have hsame : ∀ x, s.1 ≤ x → x < s.2 → t.page x = t.page s.1 :=
      fun x hx hxs => hcut.same_label hs hx hxs
    rw [t.region_start (hlt.le.trans hle)] at hstart
    rw [t.region_stop hlt.le hle] at hstop
    have hlow : s.1 ≤ pageOf a := by unfold pageOf; omega
    have hlast : lastPage a p.length < s.2 := by unfold lastPage; omega
    have hpage : pageOf a ≤ lastPage a p.length := Nat.div_le_div_right (by omega)
    have hhere := hsame _ hlow (by omega)
    refine ⟨hview, hfirst.trans hlow, hlast.trans_le hle, ?_, fun x hx hxl => ?_⟩
    · rw [hhere]
      exact (region_searchable hlt hle hsame).mp hsearch
    · rw [hhere]
      exact hsame x (hlow.trans hx) (hxl.trans_lt hlast)
  · rintro ⟨hview, hlow, hlast, hacc, hsame⟩
    have hpage : pageOf a ≤ lastPage a p.length := Nat.div_le_div_right (by omega)
    obtain ⟨s, hs, hsa, has⟩ := hcut.tiles.exists_mem hlow (hpage.trans_lt hlast)
    have hlt := hcut.tiles.lo_lt_hi hs
    have hle := hcut.tiles.hi_le hs
    have hlabel : ∀ x, s.1 ≤ x → x < s.2 → t.page x = t.page s.1 :=
      fun x hx hxs => hcut.same_label hs hx hxs
    have hhere := hlabel _ hsa has
    -- the stretch would end inside the occurrence at a page with other attributes
    have hreach : lastPage a p.length < s.2 := by
      by_contra hend
      exact hcut.label_stop_ne hs (by omega) ((hsame s.2 has.le (by omega)).trans hhere)
    refine ⟨t.region s.1 s.2, List.mem_map_of_mem hs, ?_, ?_, ?_, hview⟩
    · exact (region_searchable hlt hle hlabel).mpr (hhere ▸ hacc)
    · rw [t.region_start (hlt.le.trans hle)]
      unfold pageOf at hsa
      omega
    · rw [t.region_stop hlt.le hle]
      unfold lastPage at hreach
      omega

theorem exists_found (t : PageTable b) {pattern : ByteVector b} (hne : pattern.bytes ≠ []) :
    ∃ found, Yields (fun n => t.space.searchInMemory n pattern) found ∧
      found.Pairwise (· < ·) ∧ ∀ a, a ∈ found ↔ t.Occurs pattern.bytes a := by
  obtain ⟨ss, hcut, hpages⟩ := exists_pages t
  have hpos := List.length_pos_of_ne_nil hne
  have hfits : ∀ r ∈ t.regions ss, r.stop ≤ 2 ^ b.bits := by
    intro r hr
    obtain ⟨s, -, -, hlt, hle, rfl⟩ := mem_regions hcut hr
    exact (t.region_fits hlt.le hle).le
  refine ⟨_, AddressSpace.searchInMemory_yields hpages,
    AddressSpace.flatMap_hits_pairwise (regions_pairwise hcut) hfits hne, fun a => ?_⟩
  rw [AddressSpace.mem_flatMap_hits hfits hne]
  exact in_stretch_iff hcut hpos

end PageTable

open PageTable in
/-- A search finds exactly the occurrences whose pages the debuggee can read and all have
the same attributes, from the first application page on. -/
theorem searchInMemory_pages (t : PageTable b) {pattern : ByteVector b}
    (hne : pattern.bytes ≠ []) :
    ∃ found, Yields (fun n => t.space.searchInMemory n pattern) found ∧
      found.Pairwise (· < ·) ∧ ∀ a, a ∈ found ↔
        t.memory.view a pattern.bytes.length = pattern.bytes ∧ t.first ≤ pageOf a ∧
        lastPage a pattern.bytes.length < t.limit ∧ (t.page (pageOf a)).Accessible ∧
        ∀ x, pageOf a ≤ x → x ≤ lastPage a pattern.bytes.length →
          t.page x = t.page (pageOf a) := by
  obtain ⟨found, hyields, hascending, hmem⟩ := t.exists_found hne
  refine ⟨found, hyields, hascending, fun a => (hmem a).trans ⟨?_, ?_⟩⟩
  · intro h
    exact ⟨h.view, h.low, h.last, h.accessible, h.same⟩
  · rintro ⟨hview, hlow, hlast, haccessible, hsame⟩
    exact ⟨hview, hlow, hlast, haccessible, hsame⟩

open PageTable in
/-- Two bytes over the boundary between a writable and a read-only page. -/
theorem searchInMemory_pages_boundary :
    let t : PageTable .x64 := ofPages
      (fun p => ⟨0x10000, MEM_COMMIT, if p = 16 then 0x04 else 0x02, 0x20000⟩)
      (fun a => if a = 0x10FFF then 0xAA else if a = 0x11000 then 0xBB else 0) 16 18 (by decide)
      (by decide)
    let pattern : ByteVector .x64 := ⟨[0xAA, 0xBB], by decide⟩
    ∃ found, Yields (fun n => t.space.searchInMemory n pattern) found ∧
      found.Pairwise (· < ·) ∧ ∀ a, a ∈ found ↔
        t.memory.view a pattern.bytes.length = pattern.bytes ∧ t.first ≤ pageOf a ∧
        lastPage a pattern.bytes.length < t.limit ∧ (t.page (pageOf a)).Accessible ∧
        ∀ x, pageOf a ≤ x → x ≤ lastPage a pattern.bytes.length →
          t.page x = t.page (pageOf a) := by
  intro t pattern
  exact searchInMemory_pages t (by decide)

end RoboDbg
