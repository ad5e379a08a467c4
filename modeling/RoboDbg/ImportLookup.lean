import RoboDbg.Foundation.Formatted
import RoboDbg.Foundation.Grouping
import RoboDbg.Imports

/-!
# Looking imports up

The lookups of the imports plugin scan the collected records, each with its own checks.
All of them are views of one relation between a record and the parts of a query. A query
by ordinal goes through `strtoul` and sixteen bits.
-/

namespace RoboDbg

open Formatted Grouping Imports

variable {b : Build}

structure FunctionAddress (b : Build) where
  iatSlot : DWORD_PTR b
  target : DWORD_PTR b
deriving DecidableEq

structure ModuleInfo (b : Build) where
  modulePath : Text
  moduleBase : HMODULE b
deriving DecidableEq

def IatRecord.address (r : IatRecord b) : FunctionAddress b := ⟨r.iatSlot, r.target⟩

def IatRecord.module (r : IatRecord b) : ModuleInfo b := ⟨r.modulePath, r.moduleBase⟩

namespace Imports

/-! ## Comparing names -/

/-- `std::toupper` in the C locale. -/
def toupper (c : BYTE) : BYTE := if 0x61 ≤ c ∧ c ≤ 0x7A then c - 0x20 else c

/-- The same character, or the two cases of one letter. -/
theorem toupper_eq_toupper_iff {c d : BYTE} : toupper c = toupper d ↔
    c = d ∨ (0x61 ≤ c ∧ c ≤ 0x7A ∧ d = c - 0x20) ∨ (0x61 ≤ d ∧ d ≤ 0x7A ∧ c = d - 0x20) := by
  unfold toupper
  split_ifs with hc hd hd
  · bv_omega
  · bv_omega
  · bv_omega
  · bv_omega

def findLastOf (chars : Text) : Text → Option ℕ
  | [] => none
  | c :: s =>
    match findLastOf chars s with
    | some p => some (p + 1)
    | none => if c ∈ chars then some 0 else none

def baseName (s : Text) : Text :=
  match findLastOf (literal "\\/") s with
  | none => s
  | some p => s.drop (p + 1)

def iequals (x y : Text) : Bool :=
  if x.length ≠ y.length then false
  else (x.zip y).all (fun c => toupper c.1 = toupper c.2)

def dllEquals (x y : Text) : Bool := iequals (baseName x) (baseName y)

/-- The copy of the comparison that `findImport` uses for modules. -/
def moduleEqualsName (path wantBase : Text) : Bool :=
  let baseName := fun s : Text =>
    match findLastOf (literal "\\/") s with
    | none => s
    | some p => s.drop (p + 1)
  let x := baseName path
  let y := baseName wantBase
  if x.length ≠ y.length then false
  else (x.zip y).all (fun c => toupper c.1 = toupper c.2)

def hash : BYTE := 0x23

def characters (s : Text) : List Char := s.map (fun c => Char.ofNat c.toNat)

/-- What the C library reads at `s.c_str()`. -/
def c_str (s : Text) : List Char := characters (s.takeWhile (· ≠ 0))

def funcEquals (r : IatRecord b) (func : Text) : Bool :=
  if func.head? = some hash then
    -- an `unsigned long` has 32 bits
    let v : DWORD := strtoul 32 (c_str (func.drop 1))
    r.byOrdinal && r.ordinal = v.setWidth 16
  else if r.byOrdinal then false
  else iequals r.funcName func

/-! ## The lookups -/

variable (imports : Imports b)

/-- The loop of the lookups that return all matches. -/
def select (keep : IatRecord b → Bool) : List (FunctionAddress b) :=
  collect keep IatRecord.address imports.entries_

/-- A second match within the module ends the loop. -/
def findImport (module dll func : Text) : Option (FunctionAddress b) :=
  (only (fun r => moduleEqualsName r.modulePath module && dllEquals r.dllName dll &&
    funcEquals r func) none imports.entries_).map IatRecord.address

def findImports (dll func : Text) : List (FunctionAddress b) :=
  imports.select (fun r => dllEquals r.dllName dll && funcEquals r func)

/-- The overload of `findImports` for one module. -/
def findImportsIn (moduleBase : HMODULE b) (dll func : Text) : List (FunctionAddress b) :=
  imports.select (fun r => r.moduleBase = moduleBase && dllEquals r.dllName dll &&
    funcEquals r func)

def listModules : List (ModuleInfo b) :=
  sortByKey ModuleInfo.moduleBase
    (imports.entries_.foldl (keepFirst IatRecord.moduleBase IatRecord.module) ([], [])).2

def findImportsByDll (dll : Text) : List (FunctionAddress b) :=
  imports.select (fun r => dllEquals r.dllName dll)

def findImportsByName (func : Text) : List (FunctionAddress b) :=
  imports.select (fun r => funcEquals r func)

/-! ## File names -/

/-- The part of a path behind its last separator. -/
def FileName (path name : Text) : Prop :=
  (∀ c ∈ name, c ∉ literal "\\/") ∧
    ∃ directory, path = directory ++ name ∧ ∀ c ∈ directory.getLast?, c ∈ literal "\\/"

/-- The file names of two paths differ in the case of ASCII letters at most. -/
def SameFile (path path' : Text) : Prop :=
  ∃ name name', FileName path name ∧ FileName path' name' ∧
    name.map toupper = name'.map toupper

theorem findLastOf_eq_none {chars s : Text} (h : findLastOf chars s = none) :
    ∀ c ∈ s, c ∉ chars := by
  induction s with
  | nil => simp
  | cons c s ih =>
    rw [findLastOf] at h
    split at h
    · cases h
    · next hrest =>
      split_ifs at h with hc
      exact List.forall_mem_cons.mpr ⟨hc, ih hrest⟩

theorem findLastOf_eq_some {chars s : Text} {p : ℕ} (h : findLastOf chars s = some p) :
    ∃ c directory, c ∈ chars ∧ s = (directory ++ [c]) ++ s.drop (p + 1) ∧
      ∀ c ∈ s.drop (p + 1), c ∉ chars := by
  induction s generalizing p with
  | nil => cases h
  | cons c s ih =>
    rw [findLastOf] at h
    split at h
    · next q hq =>
      obtain rfl := Option.some.inj h
      obtain ⟨d, directory, hd, hs, hname⟩ := ih hq
      refine ⟨d, c :: directory, hd, ?_, hname⟩
      rw [List.drop_succ_cons, List.cons_append, List.cons_append, ← hs]
    · next hrest =>
      split_ifs at h with hc
      obtain rfl := Option.some.inj h
      exact ⟨c, [], hc, rfl, findLastOf_eq_none hrest⟩

theorem fileName_baseName (s : Text) : FileName s (baseName s) := by
  unfold baseName
  split
  · next h => exact ⟨findLastOf_eq_none h, [], rfl, by simp⟩
  · next p h =>
    obtain ⟨c, directory, hc, hs, hname⟩ := findLastOf_eq_some h
    refine ⟨hname, directory ++ [c], hs, fun d hd => ?_⟩
    rw [List.getLast?_concat, Option.mem_some_iff] at hd
    rwa [← hd]

theorem FileName.length_le {path name name' : Text} (h : FileName path name)
    (h' : FileName path name') : name.length ≤ name'.length := by
  obtain ⟨hname, directory, rfl, -⟩ := h
  obtain ⟨-, directory', heq, hlast'⟩ := h'
  rcases List.append_eq_append_iff.mp heq with ⟨more, rfl, rfl⟩ | ⟨more, rfl, rfl⟩
  · rcases List.eq_nil_or_concat more with rfl | ⟨more, c, rfl⟩
    · exact le_rfl
    · -- the last character of the longer directory would be one of the name
      have hc : c ∈ literal "\\/" := by
        apply hlast'
        rw [List.concat_eq_append, ← List.append_assoc, List.getLast?_concat]
        rfl
      exact absurd hc (hname c (by simp))
  · rw [List.length_append]
    exact Nat.le_add_left _ _

theorem FileName.unique {path name name' : Text} (h : FileName path name)
    (h' : FileName path name') : name = name' := by
  have hlength := le_antisymm (h.length_le h') (h'.length_le h)
  obtain ⟨-, directory, rfl, -⟩ := h
  obtain ⟨-, directory', heq, -⟩ := h'
  exact (List.append_inj' heq hlength).2

theorem iequals_iff {x y : Text} : iequals x y = true ↔ x.map toupper = y.map toupper := by
  induction x generalizing y with
  | nil => cases y <;> simp [iequals]
  | cons c x ih =>
    cases y with
    | nil => simp [iequals]
    | cons d y =>
      rw [List.map_cons, List.map_cons, List.cons.injEq, ← ih]
      by_cases hlength : x.length = y.length
      · simp [iequals, hlength]
      · simp [iequals, hlength]

theorem dllEquals_iff {x y : Text} : dllEquals x y = true ↔ SameFile x y := by
  rw [dllEquals, iequals_iff]
  constructor
  · intro h
    exact ⟨baseName x, baseName y, fileName_baseName x, fileName_baseName y, h⟩
  · rintro ⟨name, name', hx, hy, h⟩
    rwa [(fileName_baseName x).unique hx, (fileName_baseName y).unique hy]

theorem moduleEqualsName_iff {path wantBase : Text} :
    moduleEqualsName path wantBase = true ↔ SameFile path wantBase :=
  dllEquals_iff

/-! ## The relation behind the lookups -/

/-- The record is the import `func` of `dll` in a module with the file name of `module`. -/
structure Imported (module dll func : Text) (r : IatRecord b) : Prop where
  file : SameFile r.modulePath module
  dll : SameFile r.dllName dll
  func : funcEquals r func = true

def recordsByDll (dll : Text) : List (IatRecord b) :=
  imports.entries_.filter (fun r => dllEquals r.dllName dll)

def recordsByName (func : Text) : List (IatRecord b) :=
  imports.entries_.filter (fun r => funcEquals r func)

theorem select_eq (keep : IatRecord b → Bool) :
    imports.select keep = (imports.entries_.filter keep).map IatRecord.address :=
  collect_eq keep _ _

theorem findImports_eq (dll func : Text) :
    imports.findImports dll func = ((imports.recordsByName func).filter
      (fun r => r ∈ imports.recordsByDll dll)).map IatRecord.address := by
  rw [findImports, select_eq, recordsByName, List.filter_filter]
  congr 1
  refine List.filter_congr (fun r hr => ?_)
  simp [recordsByDll, hr]

def Found (a : FunctionAddress b) : Prop :=
  ∃ module dll func, imports.findImport module dll func = some a ∨
    a ∈ imports.findImports dll func ∨ ∃ base, a ∈ imports.findImportsIn base dll func

theorem exists_record_of_mem_select {keep : IatRecord b → Bool} {a : FunctionAddress b}
    (h : a ∈ imports.select keep) : ∃ r ∈ imports.entries_, r.address = a := by
  rw [select_eq] at h
  obtain ⟨r, hr, ha⟩ := List.mem_map.mp h
  exact ⟨r, List.mem_of_mem_filter hr, ha⟩

/-! ### Modules -/

theorem listModules_firsts : ∃ kept, Firsts IatRecord.moduleBase imports.entries_ kept ∧
    imports.listModules = sortByKey ModuleInfo.moduleBase (kept.map IatRecord.module) := by
  obtain ⟨kept, hfirsts, hloop⟩ :=
    foldl_keepFirst IatRecord.moduleBase IatRecord.module imports.entries_
  exact ⟨kept, hfirsts, by rw [listModules, hloop]⟩

theorem map_moduleBase_module (kept : List (IatRecord b)) :
    (kept.map IatRecord.module).map ModuleInfo.moduleBase = kept.map IatRecord.moduleBase := by
  rw [List.map_map]
  rfl

theorem listModules_increasing :
    (imports.listModules.map ModuleInfo.moduleBase).Pairwise (· < ·) := by
  obtain ⟨kept, hfirsts, he⟩ := imports.listModules_firsts
  rw [he]
  apply pairwise_lt_sortByKey
  rw [map_moduleBase_module]
  exact hfirsts.nodup

theorem mem_listModules_base (base : HMODULE b) :
    base ∈ imports.listModules.map ModuleInfo.moduleBase ↔
      base ∈ imports.entries_.map IatRecord.moduleBase := by
  obtain ⟨kept, hfirsts, he⟩ := imports.listModules_firsts
  rw [he, ((sortByKey_perm _ _).map _).mem_iff, map_moduleBase_module]
  exact hfirsts.mem_keys

/-- Records with equal keys, which `std::sort` may exchange, do not occur. -/
theorem eq_listModules {l : List (ModuleInfo b)} (hperm : l.Perm imports.listModules)
    (h : (l.map ModuleInfo.moduleBase).Pairwise (· ≤ ·)) : l = imports.listModules :=
  eq_of_perm_of_pairwise_le hperm h imports.listModules_increasing

theorem listModules_path {m : ModuleInfo b} (h : m ∈ imports.listModules) :
    ∃ before r after, imports.entries_ = before ++ r :: after ∧ m = r.module ∧
      ∀ r' ∈ before, r'.moduleBase ≠ m.moduleBase := by
  obtain ⟨kept, hfirsts, he⟩ := imports.listModules_firsts
  rw [he, (sortByKey_perm _ _).mem_iff] at h
  obtain ⟨r, hr, rfl⟩ := List.mem_map.mp h
  obtain ⟨before, after, hentries, hbefore⟩ := hfirsts.first r hr
  exact ⟨before, r, after, hentries, rfl, hbefore⟩

theorem findImports_perm (dll func : Text) :
    (imports.findImports dll func).Perm (imports.listModules.flatMap
      (fun m => imports.findImportsIn m.moduleBase dll func)) := by
  let found := imports.entries_.filter (fun r => dllEquals r.dllName dll && funcEquals r func)
  have hin : ∀ base, imports.findImportsIn base dll func =
      (found.filter (fun r => r.moduleBase = base)).map IatRecord.address := by
    intro base
    simp only [findImportsIn, select_eq, found, List.filter_filter, Bool.and_assoc]
  have hall : found.filter
      (fun r => r.moduleBase ∈ imports.listModules.map ModuleInfo.moduleBase) = found := by
    apply List.filter_eq_self.mpr
    intro r hr
    apply decide_eq_true
    rw [mem_listModules_base]
    exact List.mem_map_of_mem (List.mem_of_mem_filter hr)
  have hnodup : (imports.listModules.map ModuleInfo.moduleBase).Nodup :=
    imports.listModules_increasing.imp BitVec.ne_of_lt
  have hperm := perm_flatMap_filter IatRecord.moduleBase (l := found) hnodup
  rw [hall, List.flatMap_map] at hperm
  rw [findImports, select_eq]
  simp only [hin, ← List.map_flatMap]
  exact (hperm.map IatRecord.address).symm

/-! ### The only match -/

theorem findImport_eq_some_iff {module dll func : Text} {a : FunctionAddress b} :
    imports.findImport module dll func = some a ↔
      ∃ before r after, imports.entries_ = before ++ r :: after ∧ Imported module dll func r ∧
        (∀ r' ∈ before ++ after, ¬ Imported module dll func r') ∧ r.address = a := by
  have hcheck : ∀ r : IatRecord b, (moduleEqualsName r.modulePath module &&
      dllEquals r.dllName dll && funcEquals r func) = true ↔ Imported module dll func r := by
    intro r
    rw [Bool.and_eq_true, Bool.and_eq_true, moduleEqualsName_iff, dllEquals_iff]
    exact ⟨fun h => ⟨h.1.1, h.1.2, h.2⟩, fun h => ⟨⟨h.file, h.dll⟩, h.func⟩⟩
  rw [findImport, Option.map_eq_some_iff]
  simp only [only_none_eq_some_iff, filter_eq_singleton_iff, hcheck]
  constructor
  · rintro ⟨r, ⟨before, after, he, hr, hothers⟩, ha⟩
    exact ⟨before, r, after, he, hr, hothers, ha⟩
  · rintro ⟨before, r, after, he, hr, hothers, ha⟩
    exact ⟨r, ⟨before, after, he, hr, hothers⟩, ha⟩

theorem Found.exists_record {a : FunctionAddress b} (h : imports.Found a) :
    ∃ r ∈ imports.entries_, r.address = a := by
  obtain ⟨module, dll, func, h | h | ⟨base, h⟩⟩ := h
  · obtain ⟨before, r, after, he, -, -, ha⟩ := imports.findImport_eq_some_iff.mp h
    exact ⟨r, he ▸ List.mem_append_right before List.mem_cons_self, ha⟩
  · exact imports.exists_record_of_mem_select h
  · exact imports.exists_record_of_mem_select h

/-! ## Ordinals -/

/-- The function as `collectModuleIat` prints it. -/
def printedFunc (r : IatRecord b) : Text :=
  if r.byOrdinal then literal (String.ofList ('#' :: showNat r.ordinal.toNat)) else r.funcName

def Decimal (s : Text) (n : ℕ) : Prop := Numeral (characters s) n

theorem c_str_decimal {s : Text} {n : ℕ} (h : Decimal s n) : c_str s = characters s := by
  have hnul : ∀ c ∈ s, decide (c ≠ 0) = true := by
    intro c hc
    apply decide_eq_true
    rintro rfl
    have hdigit := h.2.1 _ (List.mem_map_of_mem hc)
    revert hdigit
    decide
  rw [c_str, List.takeWhile_eq_self_iff.mpr hnul]

theorem characters_literal {cs : List Char} (h : ∀ c ∈ cs, c.isDigit = true) :
    characters (literal (String.ofList cs)) = cs := by
  rw [characters, literal, String.toList_ofList, List.map_map]
  refine (List.map_congr_left (fun c hc => ?_)).trans (List.map_id cs)
  have hdigit := h c hc
  simp only [Char.isDigit, Bool.and_eq_true, decide_eq_true_eq] at hdigit
  have hle : c.toNat ≤ 57 := hdigit.2
  have hbyte : (BitVec.ofNat 8 c.toNat).toNat = c.toNat := Nat.mod_eq_of_lt (by omega)
  rw [Function.comp_apply, hbyte, Char.ofNat_toNat, id_eq]

theorem funcEquals_hash (r : IatRecord b) (s : Text) : funcEquals r (hash :: s) = true ↔
    r.byOrdinal = true ∧ r.ordinal = (strtoul 32 (c_str s)).setWidth 16 := by
  simp [funcEquals]

/-- A numeral finds its value modulo `2 ^ 16`, and from `2 ^ 32` on the largest ordinal. -/
theorem funcEquals_decimal {r : IatRecord b} {s : Text} {n : ℕ} (h : Decimal s n) :
    funcEquals r (hash :: s) = true ↔ r.byOrdinal = true ∧
      r.ordinal.toNat = if n < 2 ^ 32 then n % 2 ^ 16 else 2 ^ 16 - 1 := by
  rw [funcEquals_hash, c_str_decimal h, strtoul_numeral h, BitVec.toNat_eq, BitVec.toNat_setWidth]
  by_cases hn : n < 2 ^ 32
  · rw [if_pos hn, if_pos hn, BitVec.toNat_ofNat, Nat.mod_eq_of_lt hn]
  · rw [if_neg hn, if_neg hn]
    rfl

theorem funcEquals_decimal_of_lt {r : IatRecord b} {s : Text} {n : ℕ} (h : Decimal s n)
    (hn : n < 2 ^ 16) :
    funcEquals r (hash :: s) = true ↔ r.byOrdinal = true ∧ r.ordinal.toNat = n := by
  have hn32 : n < 2 ^ 32 := hn.trans (by decide)
  rw [funcEquals_decimal h, if_pos hn32, Nat.mod_eq_of_lt hn]

theorem exists_ordinal (s : Text) : ∃ w : WORD, ∀ r : IatRecord b,
    funcEquals r (hash :: s) = true ↔ r.byOrdinal = true ∧ r.ordinal = w :=
  ⟨(strtoul 32 (c_str s)).setWidth 16, fun r => funcEquals_hash r s⟩

def Fits (s : Text) : Prop := ∃ n < 2 ^ 16, Decimal s n

/-- What a query by ordinal is for. -/
def SelectsOrdinal (s : Text) (r : IatRecord b) : Prop :=
  funcEquals r (hash :: s) = true ↔ r.byOrdinal = true ∧ Decimal s r.ordinal.toNat

theorem selectsOrdinal_of_fits {s : Text} (h : Fits s) (r : IatRecord b) : SelectsOrdinal s r := by
  obtain ⟨n, hn, hs⟩ := h
  rw [SelectsOrdinal, funcEquals_decimal_of_lt hs hn]
  apply and_congr_right
  intro _
  constructor
  · rintro rfl
    exact hs
  · intro hr
    exact hr.unique hs

/-- Any other query should find nothing. -/
theorem selectsOrdinal_iff_of_not_fits {s : Text} (h : ¬ Fits s) {w : WORD} {r : IatRecord b}
    (hw : funcEquals r (hash :: s) = true ↔ r.byOrdinal = true ∧ r.ordinal = w) :
    SelectsOrdinal s r ↔ r.byOrdinal = false ∨ r.ordinal ≠ w := by
  have hnone : ¬ (r.byOrdinal = true ∧ Decimal s r.ordinal.toNat) := by
    rintro ⟨-, hs⟩
    exact h ⟨_, r.ordinal.isLt, hs⟩
  rw [SelectsOrdinal, hw, iff_false_right hnone, not_and_or, Bool.not_eq_true]

theorem exists_byOrdinal (w : WORD) : ∃ r : IatRecord b, r.byOrdinal = true ∧ r.ordinal = w :=
  ⟨⟨[], 0, [], true, w, [], 0, 0, 0, 0⟩, rfl, rfl⟩

theorem funcEquals_printedFunc (r : IatRecord b) :
    funcEquals r (printedFunc r) = true ↔ r.byOrdinal = true ∨ r.funcName.head? ≠ some hash := by
  by_cases hr : r.byOrdinal = true
  · have hdecimal : Decimal (literal (String.ofList (showNat r.ordinal.toNat)))
        r.ordinal.toNat := by
      rw [Decimal, characters_literal (fun c hc => isDigit_of_mem_showNat hc)]
      exact numeral_showNat _
    have hprinted : printedFunc r =
        hash :: literal (String.ofList (showNat r.ordinal.toNat)) := by
      simp [printedFunc, hr, literal, hash]
    rw [hprinted, funcEquals_decimal_of_lt hdecimal r.ordinal.isLt]
    simp [hr]
  · have hprinted : printedFunc r = r.funcName := if_neg hr
    rw [hprinted, funcEquals]
    by_cases hname : r.funcName.head? = some hash
    · simp [hname, hr]
    · simp [hname, hr, iequals_iff]

end Imports

/-- All lookups are views of one relation between records and queries. -/
theorem lookups_agree (imports : Imports b) :
    (imports.listModules.map ModuleInfo.moduleBase).Pairwise (· < ·) ∧
    (∀ base, base ∈ imports.listModules.map ModuleInfo.moduleBase ↔
      base ∈ imports.entries_.map IatRecord.moduleBase) ∧
    (∀ dll func, (imports.findImports dll func).Perm (imports.listModules.flatMap
      (fun m => imports.findImportsIn m.moduleBase dll func))) ∧
    (∀ dll func,
      imports.findImportsByDll dll = (imports.recordsByDll dll).map IatRecord.address ∧
      imports.findImportsByName func = (imports.recordsByName func).map IatRecord.address ∧
      imports.findImports dll func = ((imports.recordsByName func).filter
        (fun r => r ∈ imports.recordsByDll dll)).map IatRecord.address) ∧
    ∀ module dll func a, imports.findImport module dll func = some a ↔
      ∃ before r after, imports.entries_ = before ++ r :: after ∧ Imported module dll func r ∧
        (∀ r' ∈ before ++ after, ¬ Imported module dll func r') ∧ r.address = a :=
  ⟨imports.listModules_increasing, imports.mem_listModules_base, imports.findImports_perm,
    fun dll func => ⟨imports.select_eq _, imports.select_eq _, imports.findImports_eq dll func⟩,
    fun _ _ _ _ => imports.findImport_eq_some_iff⟩

/-- A query by ordinal selects exactly its ordinal if the query is a numeral that fits into
sixteen bits. Any other finds the records of some ordinal. -/
theorem funcEquals_ordinal_iff {b : Build} :
    (∀ s, (∀ r : IatRecord b, SelectsOrdinal s r) ↔ Fits s) ∧
    (∀ s, ∃ w : WORD, ∀ r : IatRecord b,
      SelectsOrdinal s r ↔ Fits s ∨ r.byOrdinal = false ∨ r.ordinal ≠ w) ∧
    (∀ r : IatRecord b, funcEquals r (printedFunc r) = true ↔
      r.byOrdinal = true ∨ r.funcName.head? ≠ some hash) ∧
    ∀ s, ∃ r : IatRecord b, funcEquals r (hash :: s) = true := by
  have hpair : ∀ s, ∃ w : WORD, ∀ r : IatRecord b,
      SelectsOrdinal s r ↔ Fits s ∨ r.byOrdinal = false ∨ r.ordinal ≠ w := by
    intro s
    obtain ⟨w, hw⟩ := exists_ordinal (b := b) s
    refine ⟨w, fun r => ?_⟩
    by_cases hfits : Fits s
    · exact iff_of_true (selectsOrdinal_of_fits hfits r) (Or.inl hfits)
    · rw [selectsOrdinal_iff_of_not_fits hfits (hw r), or_iff_right hfits]
  refine ⟨fun s => ⟨fun hall => ?_, selectsOrdinal_of_fits⟩, hpair, funcEquals_printedFunc,
    fun s => ?_⟩
  · obtain ⟨w, hw⟩ := hpair s
    obtain ⟨r, hr, rfl⟩ := exists_byOrdinal (b := b) w
    simpa [hr] using (hw r).mp (hall r)
  · obtain ⟨w, hw⟩ := exists_ordinal (b := b) s
    obtain ⟨r, hr⟩ := exists_byOrdinal w
    exact ⟨r, (hw r).mpr hr⟩

/-- The query `"#65537"` finds the import by ordinal 1, the query `"#x"` one by ordinal 0,
and an import by the name `"#x"` is not found. -/
theorem funcEquals_not_ordinal :
    let ordinal (w : WORD) : IatRecord .x64 :=
      ⟨[], 0x10000, literal "a.dll", true, w, [], 0x10200, 0, 0x10200, 0⟩
    let named : IatRecord .x64 :=
      ⟨[], 0x10000, literal "a.dll", false, 0, literal "#x", 0x10200, 0, 0x10200, 0⟩
    funcEquals (ordinal 1) (literal "#65537") = true ∧ ¬ Decimal (literal "65537") 1 ∧
    funcEquals (ordinal 0) (literal "#x") = true ∧ ¬ (∃ n, Decimal (literal "x") n) ∧
    printedFunc named = literal "#x" ∧ funcEquals named (printedFunc named) = false := by
  intro ordinal named
  refine ⟨by decide, fun h => ?_, by decide, fun ⟨n, h⟩ => ?_, rfl, by decide⟩
  · have hvalue := h.2.2
    revert hvalue
    decide
  · have hdigit := h.2.1 'x' (by decide)
    cases hdigit

end RoboDbg
