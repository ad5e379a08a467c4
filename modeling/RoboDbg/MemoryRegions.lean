import RoboDbg.Foundation.Loops
import RoboDbg.Foundation.Tilings
import RoboDbg.Win32

/-!
# Regions of the debuggee's memory

`VirtualQueryEx` describes the region that an address lies in. `getMemoryPages` lists
the regions between the two application addresses, `getPageByAddress` looks for the one
that holds a target; each of them steps from the end of a region to the next query.
-/

namespace RoboDbg

open Loops Tilings

variable {b : Build}

def MEM_COMMIT : DWORD := 0x1000
def PAGE_NOACCESS : DWORD := 0x01
def PAGE_GUARD : DWORD := 0x100

/-- `MemoryRegion_t`, and the members of `MEMORY_BASIC_INFORMATION` that are copied to it. -/
structure MemoryRegion (b : Build) where
  BaseAddress : LPVOID b
  RegionSize : SIZE_T b
  State : DWORD
  Protect : DWORD
  /-- `Type` in the source. -/
  Kind : DWORD
deriving DecidableEq

namespace MemoryRegion

/-- The invalid result of `getPageByAddress`. -/
def invalid : MemoryRegion b := ⟨0, 0, 0, 0, 0⟩

def start (r : MemoryRegion b) : ℕ := r.BaseAddress.toNat

def stop (r : MemoryRegion b) : ℕ := r.BaseAddress.toNat + r.RegionSize.toNat

def Contains (r : MemoryRegion b) (a : LPVOID b) : Prop := r.start ≤ a.toNat ∧ a.toNat < r.stop

instance (r : MemoryRegion b) (a : LPVOID b) : Decidable (r.Contains a) :=
  inferInstanceAs (Decidable (_ ∧ _))

theorem toNat_end {r : MemoryRegion b} (h : r.stop < 2 ^ b.bits) :
    (r.BaseAddress + r.RegionSize).toNat = r.stop :=
  BitVec.toNat_add_of_lt h

theorem between_iff {r : MemoryRegion b} (h : r.stop < 2 ^ b.bits) (target : LPVOID b) :
    (r.BaseAddress ≤ target ∧ target < r.BaseAddress + r.RegionSize) ↔ r.Contains target := by
  rw [BitVec.le_def, BitVec.lt_def, toNat_end h]
  rfl

end MemoryRegion

/-- What the memory functions learn from the system about the debuggee. -/
structure AddressSpace (b : Build) where
  memory : Memory b
  lpMinimumApplicationAddress : LPVOID b
  lpMaximumApplicationAddress : LPVOID b
  /-- `none` stands for the result 0. -/
  virtualQueryEx : LPVOID b → Option (MemoryRegion b)
  /-- A region is a run of whole pages. -/
  whole_pages : ∀ a r, virtualQueryEx a = some r → 0x1000 ∣ r.RegionSize.toNat

namespace AddressSpace

/-! ## The two walks -/

/-- One pass of the loop of `getMemoryPages`, on `addr` and `regions`. -/
def pagesPass (space : AddressSpace b) (r : LPVOID b × List (MemoryRegion b)) :
    Pass (LPVOID b × List (MemoryRegion b)) :=
  let addr := r.1
  if addr < space.lpMaximumApplicationAddress then
    match space.virtualQueryEx addr with
    | none => .done r
    | some mbi => .again (mbi.BaseAddress + mbi.RegionSize, r.2 ++ [mbi])
  else .done r

/-- `none` while the loop needs more than `n` passes. -/
def getMemoryPages (n : ℕ) (space : AddressSpace b) : Option (List (MemoryRegion b)) :=
  (forever (fun r => some (space.pagesPass r)) n (space.lpMinimumApplicationAddress, [])).map
    Prod.snd

/-- One pass of the loop of `getPageByAddress`, on `addr` and the region to return. -/
def pageByAddressPass (space : AddressSpace b) (target : LPVOID b)
    (r : LPVOID b × Option (MemoryRegion b)) : Pass (LPVOID b × Option (MemoryRegion b)) :=
  let addr := r.1
  if addr < space.lpMaximumApplicationAddress then
    match space.virtualQueryEx addr with
    | none => .done r
    | some mbi =>
      let regionStart := mbi.BaseAddress
      let regionEnd := regionStart + mbi.RegionSize
      if regionStart ≤ target ∧ target < regionEnd then .done (addr, some mbi)
      else .again (regionEnd, none)
  else .done r

def getPageByAddress (n : ℕ) (baseAddress : LPVOID b) (space : AddressSpace b) :
    Option (MemoryRegion b) :=
  (forever (fun r => some (space.pageByAddressPass baseAddress r)) n
    (space.lpMinimumApplicationAddress, none)).map (fun r => r.2.getD .invalid)

theorem mem_getMemoryPages {space : AddressSpace b} {n : ℕ} {regions : List (MemoryRegion b)}
    (h : space.getMemoryPages n = some regions) :
    ∀ r ∈ regions, ∃ a, space.virtualQueryEx a = some r := by
  obtain ⟨s, hs, rfl⟩ := Option.map_eq_some_iff.mp h
  refine forever_invariant (I := fun s => ∀ r ∈ s.2, ∃ a, space.virtualQueryEx a = some r)
    ?_ ?_ (by simp) hs
  · intro s s' hall hpass
    simp only [pagesPass, Option.some.injEq] at hpass
    split_ifs at hpass
    split at hpass
    · cases hpass
    · next mbi hquery =>
      obtain rfl := Pass.again.inj hpass
      intro r hr
      rcases List.mem_append.mp hr with hr | hr
      · exact hall r hr
      · obtain rfl := List.mem_singleton.mp hr
        exact ⟨s.1, hquery⟩
  · intro s s' hall hpass
    simp only [pagesPass, Option.some.injEq] at hpass
    split_ifs at hpass
    · split at hpass
      · obtain rfl := Pass.done.inj hpass
        exact hall
      · cases hpass
    · obtain rfl := Pass.done.inj hpass
      exact hall

/-! ## Regions of a fixed partition -/

/-- The answers are pieces of one partition of the addresses: a query fails, or it
returns the piece that its address lies in. -/
structure Partitioned (space : AddressSpace b) : Prop where
  contains : ∀ a r, space.virtualQueryEx a = some r → r.Contains a
  fits : ∀ a r, space.virtualQueryEx a = some r → r.stop < 2 ^ b.bits
  apart : ∀ a a' r r', space.virtualQueryEx a = some r → space.virtualQueryEx a' = some r' →
    r = r' ∨ r.stop ≤ r'.start ∨ r'.stop ≤ r.start

def ofRegions (memory : Memory b) (low high : LPVOID b) (regions : List (MemoryRegion b))
    (hpages : ∀ r ∈ regions, 0x1000 ∣ r.RegionSize.toNat) : AddressSpace b where
  memory := memory
  lpMinimumApplicationAddress := low
  lpMaximumApplicationAddress := high
  virtualQueryEx a := regions.find? (fun r => r.Contains a)
  whole_pages _ r hr := hpages r (List.mem_of_find?_eq_some hr)

theorem partitioned_ofRegions {memory : Memory b} {low high : LPVOID b}
    {regions : List (MemoryRegion b)} {hpages : ∀ r ∈ regions, 0x1000 ∣ r.RegionSize.toNat}
    (hasc : Ascending MemoryRegion.start MemoryRegion.stop regions)
    (hfits : ∀ r ∈ regions, r.stop < 2 ^ b.bits) :
    (ofRegions memory low high regions hpages).Partitioned where
  contains a r hr := by simpa using List.find?_some hr
  fits a r hr := hfits r (List.mem_of_find?_eq_some hr)
  apart a a' r r' hr hr' :=
    hasc.apart (List.mem_of_find?_eq_some hr) (List.mem_of_find?_eq_some hr')

/-- Where a walk that has returned these regions makes its next query. -/
def nextQuery (space : AddressSpace b) (regions : List (MemoryRegion b)) : LPVOID b :=
  match regions.getLast? with
  | none => space.lpMinimumApplicationAddress
  | some r => r.BaseAddress + r.RegionSize

/-- The queries from an address on, the regions they return and where they stop. -/
inductive Walk (space : AddressSpace b) : LPVOID b → List (MemoryRegion b) → LPVOID b → Prop
  | stop {addr : LPVOID b}
      (h : addr < space.lpMaximumApplicationAddress → space.virtualQueryEx addr = none) :
      Walk space addr [] addr
  | step {addr e : LPVOID b} {mbi : MemoryRegion b} {regions : List (MemoryRegion b)}
      (hlt : addr < space.lpMaximumApplicationAddress)
      (hquery : space.virtualQueryEx addr = some mbi)
      (rest : Walk space (mbi.BaseAddress + mbi.RegionSize) regions e) :
      Walk space addr (mbi :: regions) e

namespace Walk

variable {space : AddressSpace b} {addr e : LPVOID b} {regions : List (MemoryRegion b)}

theorem pages_end (h : space.Walk addr regions e) (found : List (MemoryRegion b)) :
    Ends (fun _ r => some (space.pagesPass r)) (addr, found) (e, found ++ regions) := by
  induction h generalizing found with
  | @stop addr h =>
    rw [List.append_nil]
    apply Ends.done
    have hpass : space.pagesPass (addr, found) = .done (addr, found) := by
      by_cases hlt : addr < space.lpMaximumApplicationAddress
      · simp only [pagesPass, hlt, if_true, h hlt]
      · simp only [pagesPass, hlt, if_false]
    rw [hpass]
    exact Yields.const _
  | @step addr e mbi regions hlt hquery rest ih =>
    have hend := ih (found ++ [mbi])
    rw [List.append_assoc, List.singleton_append] at hend
    apply Ends.again _ hend
    simp only [pagesPass, hlt, if_true, hquery]
    exact Yields.const _

end Walk

theorem Partitioned.toNat_end {space : AddressSpace b} (hp : space.Partitioned) {a : LPVOID b}
    {r : MemoryRegion b} (h : space.virtualQueryEx a = some r) :
    (r.BaseAddress + r.RegionSize).toNat = r.stop :=
  r.toNat_end (hp.fits a r h)

theorem Partitioned.start_lt_stop {space : AddressSpace b} (hp : space.Partitioned) {a : LPVOID b}
    {r : MemoryRegion b} (h : space.virtualQueryEx a = some r) : r.start < r.stop :=
  (hp.contains a r h).1.trans_lt (hp.contains a r h).2

/-- The query at the end of a region returns the region that starts there. -/
theorem Partitioned.start_eq_stop {space : AddressSpace b} (hp : space.Partitioned) {a : LPVOID b}
    {r r' : MemoryRegion b} (h : space.virtualQueryEx a = some r)
    (h' : space.virtualQueryEx (r.BaseAddress + r.RegionSize) = some r') : r'.start = r.stop := by
  obtain ⟨hle, hlt⟩ := hp.contains _ _ h'
  rw [hp.toNat_end h] at hle hlt
  have hpos := hp.start_lt_stop h
  rcases hp.apart _ _ r r' h h' with rfl | hsep | hsep <;> omega

namespace Walk

variable {space : AddressSpace b} {addr e : LPVOID b} {regions : List (MemoryRegion b)}

theorem pages (h : space.Walk space.lpMinimumApplicationAddress regions e) :
    Yields (fun n => space.getMemoryPages n) regions :=
  (h.pages_end []).yields.map Prod.snd

/-- Each step goes up, so the walk stops. -/
theorem exists_walk (hp : space.Partitioned) (addr : LPVOID b) :
    ∃ regions e, space.Walk addr regions e := by
  induction hn : 2 ^ b.bits - addr.toNat using Nat.strong_induction_on generalizing addr with
  | _ n ih =>
    by_cases hlt : addr < space.lpMaximumApplicationAddress
    · cases hquery : space.virtualQueryEx addr with
      | none => exact ⟨[], addr, .stop (fun _ => hquery)⟩
      | some mbi =>
        have hend := hp.toNat_end hquery
        have hfits := hp.fits addr mbi hquery
        have hup := (hp.contains addr mbi hquery).2
        have hless : 2 ^ b.bits - (mbi.BaseAddress + mbi.RegionSize).toNat < n := by omega
        obtain ⟨regions, e, hwalk⟩ := ih _ hless _ rfl
        exact ⟨mbi :: regions, e, .step hlt hquery hwalk⟩
    · exact ⟨[], addr, .stop (fun h => absurd h hlt)⟩

theorem of_query (h : space.Walk addr regions e) :
    ∀ r ∈ regions, ∃ a, space.virtualQueryEx a = some r := by
  induction h with
  | stop _ => exact fun r hr => absurd hr List.not_mem_nil
  | @step addr e mbi regions hlt hquery rest ih =>
    intro r hr
    rcases List.mem_cons.mp hr with rfl | hr
    · exact ⟨addr, hquery⟩
    · exact ih r hr

theorem tiles_end (hp : space.Partitioned) {a : LPVOID b} {r : MemoryRegion b}
    (hr : space.virtualQueryEx a = some r)
    (h : space.Walk (r.BaseAddress + r.RegionSize) regions e) :
    Tiles MemoryRegion.start MemoryRegion.stop r.stop regions e.toNat := by
  induction regions generalizing a r with
  | nil =>
    cases h
    rw [hp.toNat_end hr]
    exact Tiles.nil _
  | cons mbi regions ih =>
    cases h with
    | step hlt hquery rest =>
      rw [← hp.start_eq_stop hr hquery]
      exact Tiles.cons (hp.start_lt_stop hquery) (ih hquery rest)

/-- A walk tiles the addresses from the start of its first region to where it stops. -/
theorem tiles (hp : space.Partitioned) (h : space.Walk addr regions e) :
    ∃ a ≤ addr.toNat, Tiles MemoryRegion.start MemoryRegion.stop a regions e.toNat := by
  cases h with
  | stop _ => exact ⟨addr.toNat, le_rfl, Tiles.nil _⟩
  | @step _ _ mbi regions hlt hquery rest =>
    exact ⟨mbi.start, (hp.contains addr mbi hquery).1,
      Tiles.cons (hp.start_lt_stop hquery) (tiles_end hp hquery rest)⟩

/-- A walk stops behind the last address, or where a query fails. -/
theorem stops (h : space.Walk addr regions e) :
    space.lpMaximumApplicationAddress ≤ e ∨ space.virtualQueryEx e = none := by
  induction h with
  | @stop addr h =>
    by_cases hlt : addr < space.lpMaximumApplicationAddress
    · exact Or.inr (h hlt)
    · exact Or.inl (BitVec.not_lt.mp hlt)
  | step _ _ _ ih => exact ih

theorem stop_eq (h : space.Walk addr regions e) :
    e = (regions.getLast?.map (fun r => r.BaseAddress + r.RegionSize)).getD addr := by
  induction h with
  | stop _ => rfl
  | @step addr e mbi regions hlt hquery rest ih =>
    rw [ih, List.getLast?_cons]
    cases regions.getLast? with
    | none => rfl
    | some r => rfl

theorem eq_nextQuery (h : space.Walk space.lpMinimumApplicationAddress regions e) :
    e = space.nextQuery regions := by
  rw [h.stop_eq, nextQuery]
  cases regions.getLast? with
  | none => rfl
  | some r => rfl

/-- `getPageByAddress` makes the same walk and returns at the first region that holds
the target. -/
theorem page_end_of_fits (hfits : ∀ r ∈ regions, r.stop < 2 ^ b.bits)
    (h : space.Walk addr regions e) (target : LPVOID b) :
    ∃ e', Ends (fun _ r => some (space.pageByAddressPass target r)) (addr, none)
      (e', regions.find? (fun r => r.Contains target)) := by
  induction h with
  | @stop addr h =>
    refine ⟨addr, Ends.done ?_⟩
    have hpass : space.pageByAddressPass target (addr, none) = .done (addr, none) := by
      by_cases hlt : addr < space.lpMaximumApplicationAddress
      · simp only [pageByAddressPass, hlt, if_true, h hlt]
      · simp only [pageByAddressPass, hlt, if_false]
    rw [hpass]
    exact Yields.const _
  | @step addr e mbi regions hlt hquery rest ih =>
    have hbetween := mbi.between_iff (hfits mbi List.mem_cons_self) target
    by_cases hc : mbi.Contains target
    · have hfind : (mbi :: regions).find? (fun r => r.Contains target) = some mbi :=
        List.find?_cons_of_pos (by simpa using hc)
      refine ⟨addr, Ends.done ?_⟩
      rw [hfind]
      simp only [pageByAddressPass, hlt, if_true, hquery, hbetween, hc]
      exact Yields.const _
    · obtain ⟨e', hend⟩ := ih (fun r hr => hfits r (List.mem_cons_of_mem _ hr))
      have hfind : (mbi :: regions).find? (fun r => r.Contains target) =
          regions.find? (fun r => r.Contains target) :=
        List.find?_cons_of_neg (by simpa using hc)
      rw [hfind]
      refine ⟨e', Ends.again ?_ hend⟩
      simp only [pageByAddressPass, hlt, if_true, hquery, hbetween, hc, if_false]
      exact Yields.const _

theorem page_end (hp : space.Partitioned) (h : space.Walk addr regions e) (target : LPVOID b) :
    ∃ e', Ends (fun _ r => some (space.pageByAddressPass target r)) (addr, none)
      (e', regions.find? (fun r => r.Contains target)) := by
  refine h.page_end_of_fits (fun r hr => ?_) target
  obtain ⟨a, hquery⟩ := h.of_query r hr
  exact hp.fits a r hquery

end Walk

end AddressSpace

open AddressSpace in
/-- Both walks end. The regions tile the addresses from the minimum on, up to the maximum or
to the query behind the last of them, which fails, and `getPageByAddress` returns the one region that holds
its target, or the invalid one when there is none. -/
theorem walks_tile_and_agree {space : AddressSpace b} (hp : space.Partitioned) :
    ∃ regions, Yields (fun n => space.getMemoryPages n) regions ∧
      (∀ r ∈ regions, r.start < r.stop) ∧
      regions.Pairwise (fun r s => r.stop ≤ s.start) ∧
      regions.IsChain (fun r s => r.stop = s.start) ∧
      (space.lpMaximumApplicationAddress ≤ space.nextQuery regions ∨
        space.virtualQueryEx (space.nextQuery regions) = none) ∧
      (∀ a, space.lpMinimumApplicationAddress ≤ a → a < space.nextQuery regions →
        ∃ r ∈ regions, r.Contains a) ∧
      ∀ target, ∃ r, Yields (fun n => space.getPageByAddress n target) r ∧
        ((r ∈ regions ∧ r.Contains target ∧ ∀ s ∈ regions, s.Contains target → s = r) ∨
          (r = .invalid ∧ ∀ s ∈ regions, ¬ s.Contains target)) := by
  obtain ⟨regions, e, hwalk⟩ := Walk.exists_walk hp space.lpMinimumApplicationAddress
  obtain ⟨a, ha, htiles⟩ := hwalk.tiles hp
  obtain rfl := hwalk.eq_nextQuery
  refine ⟨regions, hwalk.pages, ?_, htiles.ascending, htiles.isChain, hwalk.stops, ?_, ?_⟩
  · intro r hr
    obtain ⟨a, hquery⟩ := hwalk.of_query r hr
    exact hp.start_lt_stop hquery
  · intro x hmin hlt
    exact htiles.exists_mem (ha.trans hmin) hlt
  · intro target
    obtain ⟨e', hend⟩ := hwalk.page_end hp target
    refine ⟨_, hend.yields.map (fun r => r.2.getD .invalid), ?_⟩
    cases hfind : regions.find? (fun r => r.Contains target) with
    | none =>
      refine Or.inr ⟨rfl, fun s hs => ?_⟩
      simpa using List.find?_eq_none.mp hfind s hs
    | some r =>
      have hr := List.mem_of_find?_eq_some hfind
      have hc : r.Contains target := by simpa using List.find?_some hfind
      exact Or.inl ⟨hr, hc, fun s hs hsc => htiles.ascending.eq_of_holds hs hr hsc hc⟩

/-- Two regions behind one another, and a query that fails behind them. -/
theorem walks_tile_and_agree_two_regions :
    let memory : Memory .x64 := ⟨fun _ => 0, fun _ => .debuggee, fun _ => true, fun _ => true⟩
    let regions : List (MemoryRegion .x64) :=
      [⟨0x10000, 0x2000, MEM_COMMIT, 0x04, 0x20000⟩, ⟨0x12000, 0xE000, 0x10000, PAGE_NOACCESS, 0⟩]
    let space := AddressSpace.ofRegions memory 0x10000 0x7FFFFFFEFFFF regions (by decide)
    ∃ regions, Yields (fun n => space.getMemoryPages n) regions ∧
      (∀ r ∈ regions, r.start < r.stop) ∧
      regions.Pairwise (fun r s => r.stop ≤ s.start) ∧
      regions.IsChain (fun r s => r.stop = s.start) ∧
      (space.lpMaximumApplicationAddress ≤ space.nextQuery regions ∨
        space.virtualQueryEx (space.nextQuery regions) = none) ∧
      (∀ a, space.lpMinimumApplicationAddress ≤ a → a < space.nextQuery regions →
        ∃ r ∈ regions, r.Contains a) ∧
      ∀ target, ∃ r, Yields (fun n => space.getPageByAddress n target) r ∧
        ((r ∈ regions ∧ r.Contains target ∧ ∀ s ∈ regions, s.Contains target → s = r) ∨
          (r = .invalid ∧ ∀ s ∈ regions, ¬ s.Contains target)) := by
  intro memory regions space
  exact walks_tile_and_agree (AddressSpace.partitioned_ofRegions (by decide) (by decide))

end RoboDbg
