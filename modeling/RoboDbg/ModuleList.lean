import RoboDbg.Imports

/-!
# The modules that are collected

`collect` asks the system for the modules of the debuggee. They go into an array of 1024
elements, and the system says how much space all of them need.
-/

namespace RoboDbg

variable {b : Build}

def sizeofHMODULE (b : Build) : ℕ := b.bits / 8

/-- What `collect` learns from the system. -/
structure Psapi (b : Build) where
  /-- In the order that `EnumProcessModulesEx` gives them. -/
  modules : List (HMODULE b)
  /-- `GetModuleFileNameExA`, empty where it fails. -/
  fileName : HMODULE b → Text
  refuses : Bool

/-- The elements that are written and `*lpcbNeeded`: as many modules as `cb` bytes have
space for, and the size of all. -/
def Psapi.enumProcessModulesEx (P : Psapi b) (cb : DWORD) : Option (List (HMODULE b) × DWORD) :=
  if P.refuses then none
  else some (P.modules.take (cb.toNat / sizeofHMODULE b),
    BitVec.ofNat 32 (P.modules.length * sizeofHMODULE b))

namespace Imports

def modsLength : ℕ := 1024

def sizeofMods (b : Build) : DWORD := BitVec.ofNat 32 (modsLength * sizeofHMODULE b)

def moduleCount (b : Build) (needed : DWORD) : ℕ := needed.toNat / sizeofHMODULE b

/-- The elements of `mods` that the loop reads. -/
def modsRead (b : Build) (needed : DWORD) : List ℕ := List.range (moduleCount b needed)

/-- `mods[i]`; `stack` is what the memory holds that the call has not written, the array
itself and what lies behind it. -/
def modsElement (stack : ℕ → HMODULE b) (mods : List (HMODULE b)) (i : ℕ) : HMODULE b :=
  mods.getD i (stack i)

def modulesVisited (stack : ℕ → HMODULE b) (mods : List (HMODULE b)) (needed : DWORD) :
    List (HMODULE b) :=
  (modsRead b needed).map (modsElement stack mods)

def collectModules (n : ℕ) (m : Memory b) (P : Psapi b) (visited : List (HMODULE b))
    (imports : Imports b) : Option (Imports b) :=
  visited.foldlM (fun imports base => collectModuleIat n m imports base (some (P.fileName base)))
    imports

/-- The result and the records that are kept. -/
def collect (n : ℕ) (m : Memory b) (P : Psapi b) (stack : ℕ → HMODULE b) (hProcess_ : HANDLE) :
    Option (Bool × Imports b) :=
  -- `entries_.clear()`
  let imports : Imports b := ⟨[]⟩
  if hProcess_ = 0 then some (false, imports)
  else
    match P.enumProcessModulesEx (sizeofMods b) with
    | none => some (false, imports)
    | some (mods, needed) =>
      (collectModules n m P (modulesVisited stack mods needed) imports).map (true, ·)

/-! ## How many modules fit -/

section Fits

variable {P : Psapi b} {mods : List (HMODULE b)} {needed : DWORD}

theorem sizeofHMODULE_cases (b : Build) : sizeofHMODULE b = 4 ∨ sizeofHMODULE b = 8 := by
  cases b with
  | x86 => exact Or.inl rfl
  | x64 => exact Or.inr rfl

theorem sizeofMods_capacity (b : Build) : (sizeofMods b).toNat / sizeofHMODULE b = 1024 := by
  cases b <;> rfl

theorem enumProcessModulesEx_eq_some
    (h : P.enumProcessModulesEx (sizeofMods b) = some (mods, needed)) :
    mods = P.modules.take 1024 ∧
      needed = BitVec.ofNat 32 (P.modules.length * sizeofHMODULE b) := by
  rw [Psapi.enumProcessModulesEx, sizeofMods_capacity] at h
  split_ifs at h
  obtain ⟨rfl, rfl⟩ := Prod.mk.inj (Option.some.inj h)
  exact ⟨rfl, rfl⟩

theorem enumProcessModulesEx_of_not_refuses (hok : P.refuses = false) :
    P.enumProcessModulesEx (sizeofMods b) = some (P.modules.take 1024,
      BitVec.ofNat 32 (P.modules.length * sizeofHMODULE b)) := by
  rw [Psapi.enumProcessModulesEx, sizeofMods_capacity, hok]
  rfl

theorem moduleCount_eq {k : ℕ} (h : k * sizeofHMODULE b < 2 ^ 32) :
    moduleCount b (BitVec.ofNat 32 (k * sizeofHMODULE b)) = k := by
  have hpos : 0 < sizeofHMODULE b := by
    rcases sizeofHMODULE_cases b with h | h <;> omega
  rw [moduleCount, BitVec.toNat_ofNat, Nat.mod_eq_of_lt h, Nat.mul_div_cancel _ hpos]

theorem modulesVisited_of_le (stack : ℕ → HMODULE b)
    (h : P.enumProcessModulesEx (sizeofMods b) = some (mods, needed))
    (hle : P.modules.length ≤ 1024) :
    modulesVisited stack mods needed = P.modules ∧ ∀ i ∈ modsRead b needed, i < mods.length := by
  obtain ⟨rfl, rfl⟩ := enumProcessModulesEx_eq_some h
  have hsmall : P.modules.length * sizeofHMODULE b < 2 ^ 32 := by
    rcases sizeofHMODULE_cases b with h | h <;> rw [h] <;> omega
  rw [modulesVisited, modsRead, moduleCount_eq hsmall, List.take_of_length_le hle]
  refine ⟨?_, fun i hi => List.mem_range.mp hi⟩
  apply List.ext_getElem
  · rw [List.length_map, List.length_range]
  · intro i _ hi
    rw [List.getElem_map, List.getElem_range, modsElement, List.getD_eq_getElem?_getD,
      List.getElem?_eq_getElem hi, Option.getD_some]

end Fits

theorem collect_of_enum {P : Psapi b} {hProcess_ : HANDLE} {mods : List (HMODULE b)}
    {needed : DWORD} (hprocess : hProcess_ ≠ 0)
    (h : P.enumProcessModulesEx (sizeofMods b) = some (mods, needed)) (n : ℕ) (m : Memory b)
    (stack : ℕ → HMODULE b) : collect n m P stack hProcess_ =
      (collectModules n m P (modulesVisited stack mods needed) ⟨[]⟩).map (true, ·) := by
  simp only [collect, if_neg hprocess, h]

theorem collect_of_le (n : ℕ) (m : Memory b) {P : Psapi b} (stack : ℕ → HMODULE b)
    {hProcess_ : HANDLE} (hprocess : hProcess_ ≠ 0) (hok : P.refuses = false)
    (hle : P.modules.length ≤ 1024) :
    collect n m P stack hProcess_ = (collectModules n m P P.modules ⟨[]⟩).map (true, ·) := by
  have henum := enumProcessModulesEx_of_not_refuses hok
  rw [collect_of_enum hprocess henum, (modulesVisited_of_le stack henum hle).1]

end Imports

open Imports

/-- `collect` goes through the elements that it reads, and exactly with at most 1024 modules
it reads only what the call has written and comes once to each module. -/
theorem collect_visits_modules_iff {P : Psapi b} (stack : ℕ → HMODULE b)
    {mods : List (HMODULE b)} {needed : DWORD}
    (h : P.enumProcessModulesEx (sizeofMods b) = some (mods, needed)) :
    (∀ n m hProcess_, hProcess_ ≠ 0 → collect n m P stack hProcess_ =
        (collectModules n m P (modulesVisited stack mods needed) ⟨[]⟩).map (true, ·)) ∧
      (((∀ i ∈ modsRead b needed, i < mods.length) ∧
        (modulesVisited stack mods needed).Perm P.modules) ↔ P.modules.length ≤ 1024) := by
  refine ⟨fun n m hProcess_ hprocess => collect_of_enum hprocess h n m stack, ?_⟩
  constructor
  · rintro ⟨hwritten, hperm⟩
    obtain ⟨rfl, rfl⟩ := enumProcessModulesEx_eq_some h
    have hcount := hperm.length_eq
    rw [modulesVisited, List.length_map, modsRead, List.length_range] at hcount
    by_contra hlt
    have hread : 1024 ∈ modsRead b (BitVec.ofNat 32 (P.modules.length * sizeofHMODULE b)) := by
      rw [modsRead, hcount, List.mem_range]
      omega
    have hlen := hwritten 1024 hread
    rw [List.length_take] at hlen
    omega
  · intro hle
    obtain ⟨hall, hwritten⟩ := modulesVisited_of_le stack h hle
    rw [hall]
    exact ⟨hwritten, List.Perm.refl _⟩

def ascendingModules (count : ℕ) : Psapi .x64 where
  modules := (List.range count).map (fun i => BitVec.ofNat _ (0x10000 * (i + 1)))
  fileName _ := []
  refuses := false

theorem collect_visits_modules_iff_two :
    (∀ i ∈ modsRead .x64 16, i < 2) ∧
      (modulesVisited (fun _ => 0) [0x10000, 0x20000] 16).Perm (ascendingModules 2).modules := by
  have henum : (ascendingModules 2).enumProcessModulesEx (sizeofMods .x64) =
      some ([0x10000, 0x20000], 16) := by
    decide
  exact (collect_visits_modules_iff (fun _ => 0) henum).2.mpr (by decide)

/-- With 1025 modules the loop reads the element behind the array. -/
theorem collect_reads_behind_mods :
    ∃ mods needed, (ascendingModules 1025).enumProcessModulesEx (sizeofMods .x64) =
      some (mods, needed) ∧
      ¬ ((∀ i ∈ modsRead .x64 needed, i < mods.length) ∧
        (modulesVisited (fun _ => 0) mods needed).Perm (ascendingModules 1025).modules) := by
  refine ⟨_, _, enumProcessModulesEx_of_not_refuses rfl, ?_⟩
  rintro ⟨hwritten, -⟩
  have hlen : (ascendingModules 1025).modules.length = 1025 := by
    rw [ascendingModules, List.length_map, List.length_range]
  have hread := hwritten 1024 (by
    rw [hlen, modsRead, List.mem_range]
    decide)
  rw [List.length_take, hlen] at hread
  omega

end RoboDbg
