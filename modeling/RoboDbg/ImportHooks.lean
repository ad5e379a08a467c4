import Mathlib.Order.Interval.Set.Basic
import RoboDbg.ImportLookup
import RoboDbg.ImportTable
import RoboDbg.ModuleList
import RoboDbg.PointerSlots

/-!
# Hooking imports through their slots

What `collectModuleIat` reads of a module are headers, descriptors, thunks, names and the
slots. As long as the slots lie apart from all the rest, writing pointers to slots and
collecting again gives the same records with other targets: the imports are found as
before, and each leads to the pointer that was written to its slot last.
-/

namespace RoboDbg

open Loops Grouping Imports Set

variable {b : Build}

def IatRecord.reread (m : Memory b) (is64 : Bool) (r : IatRecord b) : IatRecord b :=
  { r with target := (readThunk m is64 r.iatSlot).setWidth b.bits }

namespace Image

/-! ## What is read of an image -/

def nameReads (img : Image b) (is64 : Bool) (oft : ℕ) : ImportedAs → Set ℕ
  | .byOrdinal _ => ∅
  | .byName name => Ico ((img.thunk is64 oft).toNat + 2)
      ((img.thunk is64 oft).toNat + 2 + (name.length + 1))

def thunkReads (img : Image b) (is64 : Bool) : ℕ → List ImportEntry → Set ℕ
  | oft, [] => Ico oft (oft + psize is64)
  | oft, e :: es => Ico oft (oft + psize is64) ∪ img.nameReads is64 oft e.importedAs ∪
      thunkReads img is64 (oft + psize is64) es

def dllReads (img : Image b) (is64 : Bool) (imp : ImageImportDescriptor) (dll : DllEntry) : Set ℕ :=
  Ico imp.Name.toNat (imp.Name.toNat + (dll.name.length + 1)) ∪
    img.thunkReads is64 imp.OriginalFirstThunk.toNat dll.imports

def tableReads (img : Image b) (is64 : Bool) : ℕ → List DllEntry → Set ℕ
  | rva, [] => Ico rva (rva + 20)
  | rva, dll :: dlls => Ico rva (rva + 20) ∪
      img.dllReads is64 (img.value ImageImportDescriptor rva) dll ∪
      tableReads img is64 (rva + 20) dlls

def headerReads (is64 : Bool) (ntRva : ℕ) : Set ℕ :=
  Ico 0 (Pod.size ImageDosHeader) ∪ Ico ntRva (ntRva + Pod.size (ImageNtHeaders is64))

/-! ## The image in another state of memory -/

def onMemory (img : Image b) (m : Memory b) (hr : m.readable = img.memory.readable) : Image b :=
  { img with
    memory := m
    readable := by
      rw [hr]
      exact img.readable }

def SameAt (img : Image b) (m : Memory b) (S : Set ℕ) : Prop :=
  ∀ k ∈ S, m.bytes (img.va k) = img.memory.bytes (img.va k)

variable {img : Image b} {m : Memory b} {is64 : Bool} {dll : DllEntry}
  (hr : m.readable = img.memory.readable)

theorem SameAt.mono {S T : Set ℕ} (h : img.SameAt m T) (hle : S ⊆ T) : img.SameAt m S :=
  fun k hk => h k (hle hk)

theorem SameAt.view {rva n : ℕ} (h : img.SameAt m (Ico rva (rva + n))) :
    m.view (img.va rva) n = img.memory.view (img.va rva) n := by
  apply Memory.view_congr
  intro k hk
  rw [va_add]
  exact h (rva + k) ⟨Nat.le_add_right rva k, Nat.add_lt_add_left hk rva⟩

theorem value_onMemory {α : Type} [Pod α] {rva : ℕ}
    (h : img.SameAt m (Ico rva (rva + Pod.size α))) :
    (img.onMemory m hr).value α rva = img.value α rva :=
  congrArg Pod.ofBytes h.view

theorem thunk_onMemory {rva : ℕ} (h : img.SameAt m (Ico rva (rva + psize is64))) :
    (img.onMemory m hr).thunk is64 rva = img.thunk is64 rva := by
  cases is64 with
  | true => exact value_onMemory (α := ULONGLONG) hr h
  | false => exact congrArg (BitVec.setWidth 64) (value_onMemory (α := DWORD) hr h)

theorem HoldsText.onMemory {rva : ℕ} {s : Text} (h : img.HoldsText rva s)
    (hsame : img.SameAt m (Ico rva (rva + (s.length + 1)))) :
    (img.onMemory m hr).HoldsText rva s :=
  ⟨h.inside, h.noNul, hsame.view.trans h.bytes⟩

theorem HasHeaders.onMemory {ntRva : ℕ} {importDir : ImageDataDirectory}
    (h : img.HasHeaders ntRva is64 importDir) (hsame : img.SameAt m (headerReads is64 ntRva)) :
    (img.onMemory m hr).HasHeaders ntRva is64 importDir := by
  have hsize : 248 ≤ Pod.size (ImageNtHeaders is64) := by
    cases is64 <;> decide
  have hdos : (img.onMemory m hr).value ImageDosHeader 0 = img.value ImageDosHeader 0 := by
    apply value_onMemory hr
    rw [Nat.zero_add]
    exact hsame.mono subset_union_left
  have hnts : img.SameAt m (Ico ntRva (ntRva + Pod.size (ImageNtHeaders is64))) :=
    hsame.mono subset_union_right
  have hnt := value_onMemory (α := ImageNtHeaders is64) hr hnts
  have hsig : (img.onMemory m hr).value DWORD ntRva = img.value DWORD ntRva := by
    apply value_onMemory hr
    exact hnts.mono (Ico_subset_Ico_right (Nat.add_le_add_left (le_trans (by decide) hsize) ntRva))
  have hmagic : (img.onMemory m hr).value WORD (ntRva + 24) = img.value WORD (ntRva + 24) := by
    apply value_onMemory hr
    have hend : ntRva + 24 + Pod.size WORD ≤ ntRva + Pod.size (ImageNtHeaders is64) := by
      rw [Nat.add_assoc]
      exact Nat.add_le_add_left (le_trans (by decide) hsize) ntRva
    exact hnts.mono (Ico_subset_Ico (Nat.le_add_right ntRva 24) hend)
  exact {
    dosInside := h.dosInside
    dosSignature := by rw [hdos]; exact h.dosSignature
    lfanew := by rw [hdos]; exact h.lfanew
    ntInside := h.ntInside
    ntSignature := hsig.trans h.ntSignature
    magic := hmagic.trans h.magic
    size := by rw [hnt]; exact h.size
    directory := by rw [hnt]; exact h.directory
    nonempty := h.nonempty }

/-! ## The table in another state of memory -/

def stored (img : Image b) (is64 : Bool) : ℕ → List ImportEntry → List ImportEntry
  | _, [] => []
  | ft, e :: es => { e with pointer := img.thunk is64 ft } :: stored img is64 (ft + psize is64) es

def reread (img : Image b) (is64 : Bool) (dll : DllEntry) : DllEntry :=
  { dll with imports := img.stored is64 dll.firstThunk.toNat dll.imports }

theorem Denotes.onMemory {oft : ℕ} {k : ImportedAs} (h : img.Denotes is64 (img.thunk is64 oft) k)
    (hsame : img.SameAt m (img.nameReads is64 oft k)) :
    (img.onMemory m hr).Denotes is64 (img.thunk is64 oft) k := by
  cases k with
  | byOrdinal ordinal => exact h
  | byName name => exact ⟨h.1, h.2.1, h.2.2.1, h.2.2.2.onMemory hr hsame⟩

theorem ThunkTable.onMemory {oft ft : ℕ} {es : List ImportEntry}
    (h : img.ThunkTable is64 oft ft es) (hsame : img.SameAt m (img.thunkReads is64 oft es)) :
    (img.onMemory m hr).ThunkTable is64 oft ft ((img.onMemory m hr).stored is64 ft es) := by
  induction h with
  | nil inside zero => exact .nil inside ((thunk_onMemory hr hsame).trans zero)
  | @cons oft ft e es inside slotInside denotes stored rest ih =>
    have hthunk := thunk_onMemory hr
      (hsame.mono (subset_union_left.trans subset_union_left) :
        img.SameAt m (Ico oft (oft + psize is64)))
    have hname : img.SameAt m (img.nameReads is64 oft e.importedAs) :=
      hsame.mono (subset_union_right.trans subset_union_left)
    refine .cons inside slotInside ?_ rfl (ih (hsame.mono subset_union_right))
    rw [hthunk]
    exact denotes.onMemory hr hname

theorem Describes.onMemory {imp : ImageImportDescriptor} {dll : DllEntry}
    (h : img.Describes is64 imp dll) (hsame : img.SameAt m (img.dllReads is64 imp dll)) :
    (img.onMemory m hr).Describes is64 imp ((img.onMemory m hr).reread is64 dll) where
  originalFirstThunk := h.originalFirstThunk
  firstThunk := h.firstThunk
  firstThunk_ne_zero := h.firstThunk_ne_zero
  name_ne_zero := h.name_ne_zero
  name := h.name.onMemory hr (hsame.mono subset_union_left)
  thunks := h.thunks.onMemory hr (hsame.mono subset_union_right)

theorem DescriptorTable.onMemory {rva : ℕ} {dlls : List DllEntry}
    (h : img.DescriptorTable is64 rva dlls) (hsame : img.SameAt m (img.tableReads is64 rva dlls)) :
    (img.onMemory m hr).DescriptorTable is64 rva
      (dlls.map ((img.onMemory m hr).reread is64)) := by
  induction h with
  | nil inside zero =>
    exact .nil inside ((value_onMemory (α := ImageImportDescriptor) hr hsame).trans zero)
  | @cons rva dll dlls inside describes rest ih =>
    have hvalue := value_onMemory (α := ImageImportDescriptor) hr
      (hsame.mono (subset_union_left.trans subset_union_left))
    refine .cons inside ?_ (ih (hsame.mono subset_union_right))
    rw [hvalue]
    exact describes.onMemory hr (hsame.mono (subset_union_right.trans subset_union_left))

/-! ## Slots and records -/

def slot (img : Image b) (is64 : Bool) (dll : DllEntry) (i : ℕ) : IatSlot b :=
  ⟨img.va (dll.firstThunk.toNat + i * psize is64), is64⟩

theorem ThunkTable.slot_holds {oft ft i : ℕ} {es : List ImportEntry}
    (h : img.ThunkTable is64 oft ft es) (hi : i < es.length) :
    img.Inside (ft + i * psize is64) (psize is64) ∧
      img.thunk is64 (ft + i * psize is64) = es[i].pointer := by
  induction h generalizing i with
  | nil => cases hi
  | @cons oft ft e es inside slotInside denotes stored rest ih =>
    cases i with
    | zero =>
      rw [Nat.zero_mul, Nat.add_zero]
      exact ⟨slotInside, stored⟩
    | succ i =>
      have hrest := ih (Nat.lt_of_succ_lt_succ hi)
      rwa [Nat.add_assoc, Nat.add_comm (psize is64), ← Nat.succ_mul] at hrest

theorem stored_eq (ft : ℕ) (es : List ImportEntry) : img.stored is64 ft es =
    es.mapIdx (fun i e => { e with pointer := img.thunk is64 (ft + i * psize is64) }) := by
  induction es generalizing ft with
  | nil => rfl
  | cons e es ih =>
    have hshift : ∀ i, ft + psize is64 + i * psize is64 = ft + (i + 1) * psize is64 := by
      intro i
      rw [Nat.succ_mul, Nat.add_comm (i * _), ← Nat.add_assoc]
    simp only [stored, ih, List.mapIdx_cons, Nat.zero_mul, Nat.add_zero, hshift]

/-- The records of the table as it stands in `m` are the old ones with other targets. -/
theorem records_onMemory (h : ∀ i < dll.imports.length,
      img.Inside (dll.firstThunk.toNat + i * psize is64) (psize is64)) (path : Option Text) :
    (img.onMemory m hr).records is64 path ((img.onMemory m hr).reread is64 dll) =
      (img.records is64 path dll).map (IatRecord.reread m is64) := by
  apply List.ext_getElem
  · simp only [records, reread, stored_eq, List.length_mapIdx, List.length_map]
  · intro i hi hi'
    have hlen : i < dll.imports.length := by
      simpa only [records, List.length_mapIdx, List.length_map] using hi'
    have hthunk : readThunk m is64 (img.va (dll.firstThunk.toNat + i * psize is64)) =
        (img.onMemory m hr).thunk is64 (dll.firstThunk.toNat + i * psize is64) :=
      @readThunk_eq _ (img.onMemory m hr) is64 _ (h i hlen)
    simp only [records, reread, stored_eq, List.getElem_mapIdx, List.getElem_map, record,
      IatRecord.reread, hthunk]
    rfl

end Image

/-! ## Modules -/

/-- A module that is mapped in the debuggee, with the import table that its image holds. -/
structure LoadedModule (b : Build) where
  image : Image b
  ntRva : ℕ
  is64 : Bool
  importDir : ImageDataDirectory
  dlls : List DllEntry
  headers : image.HasHeaders ntRva is64 importDir
  table : image.DescriptorTable is64 importDir.VirtualAddress.toNat dlls

namespace LoadedModule

/-- What `collectModuleIat` reads apart from the slots. -/
def reads (M : LoadedModule b) : Set (LPVOID b) :=
  M.image.va '' (Image.headerReads M.is64 M.ntRva ∪
    M.image.tableReads M.is64 M.importDir.VirtualAddress.toNat M.dlls)

def slots (M : LoadedModule b) : Set (IatSlot b) :=
  {s | ∃ dll ∈ M.dlls, ∃ i < dll.imports.length, s = M.image.slot M.is64 dll i}

def records (path : Option Text) (M : LoadedModule b) : List (IatRecord b) :=
  M.dlls.flatMap (M.image.records M.is64 path)

variable {M : LoadedModule b} {m : Memory b}

theorem collectModuleIat (M : LoadedModule b) (path : Option Text) (imports : Imports b) :
    Yields (fun n => collectModuleIat n M.image.memory imports M.image.base path)
      ⟨imports.entries_ ++ M.records path⟩ := by
  obtain ⟨k, hk⟩ := Image.descriptors_end (j := 0) M.importDir path
    (by simpa only [Nat.zero_mul, Nat.add_zero] using M.table) imports.entries_
  simp only [Imports.collectModuleIat, Imports.collectModuleIatWith, M.headers.getNtInfo]
  exact hk.yields.map (fun r => (⟨r.2⟩ : Imports b))

theorem slot_holds {dll : DllEntry} (hdll : dll ∈ M.dlls) {i : ℕ} (hi : i < dll.imports.length) :
    M.image.Inside (dll.firstThunk.toNat + i * psize M.is64) (psize M.is64) ∧
      M.image.thunk M.is64 (dll.firstThunk.toNat + i * psize M.is64) = dll.imports[i].pointer := by
  have hdescribes : ∀ {rva : ℕ} {dlls : List DllEntry}, M.image.DescriptorTable M.is64 rva dlls →
      dll ∈ dlls → ∃ imp, M.image.Describes M.is64 imp dll := by
    intro rva dlls h hmem
    induction h with
    | nil => cases hmem
    | cons inside describes rest ih =>
      rcases List.mem_cons.mp hmem with rfl | hmem
      · exact ⟨_, describes⟩
      · exact ih hmem
  obtain ⟨imp, h⟩ := hdescribes M.table hdll
  exact h.thunks.slot_holds hi

theorem slot_readable {s : IatSlot b} (hs : s ∈ M.slots) :
    ∀ a ∈ s.addresses, M.image.memory.readable a = true := by
  obtain ⟨dll, hdll, i, hi, rfl⟩ := hs
  rintro a ⟨k, hk, rfl⟩
  have hinside := (M.slot_holds hdll hi).1
  have hk' : k < psize M.is64 := hk
  rw [Image.slot, Image.va_add]
  apply M.image.readable
  unfold Image.Inside at hinside
  omega

theorem record_slot {path : Option Text} {r : IatRecord b} (hr : r ∈ M.records path) :
    ∃ s ∈ M.slots, s.address = r.iatSlot ∧ s.is64 = M.is64 ∧
      r.target = (s.pointer M.image.memory).setWidth b.bits := by
  obtain ⟨dll, hdll, hr⟩ := List.mem_flatMap.mp hr
  obtain ⟨i, hi, rfl⟩ := List.mem_iff_getElem.mp hr
  have hlen : i < dll.imports.length := by
    simpa only [Image.records, List.length_mapIdx] using hi
  obtain ⟨hinside, hpointer⟩ := M.slot_holds hdll hlen
  refine ⟨M.image.slot M.is64 dll i, ⟨dll, hdll, i, hlen, rfl⟩, ?_, rfl, ?_⟩
  · simp only [Image.records, List.getElem_mapIdx]
    rfl
  · simp only [Image.records, List.getElem_mapIdx, Image.record, IatSlot.pointer, Image.slot,
      Image.readThunk_eq hinside, hpointer]

/-- Where memory has changed in slots only, the same records are collected with the pointers
that the slots hold now. -/
theorem collectModuleIat_again (M : LoadedModule b) (hr : m.readable = M.image.memory.readable)
    (hsame : ∀ a ∈ M.reads, m.bytes a = M.image.memory.bytes a) (path : Option Text)
    (imports : Imports b) :
    Yields (fun n => Imports.collectModuleIat n m imports M.image.base path)
      ⟨imports.entries_ ++ (M.records path).map (IatRecord.reread m M.is64)⟩ := by
  have hsameAt : M.image.SameAt m (Image.headerReads M.is64 M.ntRva ∪
      M.image.tableReads M.is64 M.importDir.VirtualAddress.toNat M.dlls) :=
    fun k hk => hsame _ (mem_image_of_mem _ hk)
  let M' : LoadedModule b := {
    image := M.image.onMemory m hr
    ntRva := M.ntRva
    is64 := M.is64
    importDir := M.importDir
    dlls := M.dlls.map ((M.image.onMemory m hr).reread M.is64)
    headers := M.headers.onMemory hr (hsameAt.mono subset_union_left)
    table := M.table.onMemory hr (hsameAt.mono subset_union_right) }
  have hrecords : M'.records path = (M.records path).map (IatRecord.reread m M.is64) := by
    rw [records, records, List.flatMap_map, List.map_flatMap]
    apply List.flatMap_congr
    intro dll hdll
    exact Image.records_onMemory hr (fun i hi => (M.slot_holds hdll hi).1) path
  rw [← hrecords]
  exact M'.collectModuleIat path imports

end LoadedModule
/-! ## All modules -/

def allSlots (mods : List (LoadedModule b)) : Set (IatSlot b) := {s | ∃ M ∈ mods, s ∈ M.slots}

/-- One memory holds all modules; no two slots share a byte, and nothing else that is read
lies in a slot. -/
structure SlotsApart (mods : List (LoadedModule b)) (m : Memory b) : Prop where
  memory : ∀ M ∈ mods, M.image.memory = m
  slots : ∀ s ∈ allSlots mods, ∀ t ∈ allSlots mods, s ≠ t → ∀ a ∈ s.addresses, a ∉ t.addresses
  reads : ∀ M ∈ mods, ∀ s ∈ allSlots mods, ∀ a ∈ M.reads, a ∉ s.addresses

def IatRecord.retarget (f : LPVOID b → Option ULONGLONG) (r : IatRecord b) : IatRecord b :=
  { r with target := ((f r.iatSlot).map (·.setWidth b.bits)).getD r.target }

def FunctionAddress.retarget (f : LPVOID b → Option ULONGLONG) (a : FunctionAddress b) :
    FunctionAddress b :=
  { a with target := ((f a.iatSlot).map (·.setWidth b.bits)).getD a.target }

def Imports.retarget (f : LPVOID b → Option ULONGLONG) (imports : Imports b) : Imports b :=
  ⟨imports.entries_.map (IatRecord.retarget f)⟩

section Lookups

variable (f : LPVOID b → Option ULONGLONG) (imports : Imports b)

/-- No lookup asks for the target. -/
theorem filter_retarget {keep : IatRecord b → Bool} (hkeep : ∀ r, keep (r.retarget f) = keep r) :
    (imports.retarget f).entries_.filter keep =
      (imports.entries_.filter keep).map (IatRecord.retarget f) := by
  rw [Imports.retarget, List.filter_map]
  exact congrArg (List.map _) (List.filter_congr (fun r _ => hkeep r))

theorem select_retarget {keep : IatRecord b → Bool} (hkeep : ∀ r, keep (r.retarget f) = keep r) :
    (imports.retarget f).select keep = (imports.select keep).map (FunctionAddress.retarget f) := by
  rw [select_eq, select_eq, filter_retarget f imports hkeep, List.map_map, List.map_map]
  rfl

theorem findImport_retarget (module dll func : Text) :
    (imports.retarget f).findImport module dll func =
      (imports.findImport module dll func).map (FunctionAddress.retarget f) := by
  let keep : IatRecord b → Bool := fun r =>
    moduleEqualsName r.modulePath module && dllEquals r.dllName dll && funcEquals r func
  have hkeep : ∀ r : IatRecord b, keep (r.retarget f) = keep r := fun _ => rfl
  have honly : only keep none (imports.retarget f).entries_ =
      (only keep none imports.entries_).map (IatRecord.retarget f) := by
    apply Option.ext
    intro r
    rw [only_none_eq_some_iff, filter_retarget f imports hkeep, Option.map_eq_some_iff]
    simp only [only_none_eq_some_iff, List.map_eq_singleton_iff]
  rw [findImport, findImport, honly, Option.map_map, Option.map_map]
  rfl

end Lookups

section Modules

variable {mods : List (LoadedModule b)} {m : Memory b} {d : Debugger b} {P : Psapi b}

theorem SlotsApart.separated (h : SlotsApart mods m) : Separated (allSlots mods) m := by
  refine ⟨?_, h.slots⟩
  rintro s ⟨M, hM, hs⟩
  rw [← h.memory M hM]
  exact M.slot_readable hs

theorem collectModules_yields (mods : List (LoadedModule b))
    {records : LoadedModule b → List (IatRecord b)}
    (h : ∀ M ∈ mods, ∀ imports, Yields (fun n => Imports.collectModuleIat n m imports M.image.base
      (some (P.fileName M.image.base))) ⟨imports.entries_ ++ records M⟩) (imports : Imports b) :
    Yields (fun n => collectModules n m P (mods.map (·.image.base)) imports)
      ⟨imports.entries_ ++ mods.flatMap records⟩ := by
  induction mods generalizing imports with
  | nil =>
    rw [List.flatMap_nil, List.append_nil]
    exact Yields.const imports
  | cons M mods ih =>
    rw [List.flatMap_cons, ← List.append_assoc]
    exact (h M List.mem_cons_self imports).bind
      (ih (fun N hN => h N (List.mem_cons_of_mem M hN)) ⟨imports.entries_ ++ records M⟩)

variable (rs : List (Redirection (allSlots mods)))

/-- After redirections a record leads to the pointer that was written to its slot last. -/
theorem SlotsApart.reread (h : SlotsApart mods d.os.memory) {M : LoadedModule b} (hM : M ∈ mods)
    {path : Option Text} {r : IatRecord b} (hr : r ∈ M.records path) :
    r.reread (rs.foldl (fun d r => r.run d) d).os.memory M.is64 =
      r.retarget (Redirection.lastPointer d.os.memory rs) := by
  obtain ⟨s, hs, haddress, his64, htarget⟩ := M.record_slot hr
  have hpointer := h.separated.foldl_pointer rs ⟨M, hM, hs⟩
  rw [h.memory M hM] at htarget
  have hthunk : ∀ m : Memory b, readThunk m M.is64 r.iatSlot = s.pointer m := by
    intro m
    rw [IatSlot.pointer, haddress, his64]
  rw [IatRecord.reread, IatRecord.retarget, hthunk, hpointer, haddress, htarget]
  cases Redirection.lastPointer d.os.memory rs r.iatSlot <;> rfl

/-- Hooking imports by writing to their slots: for every number of modules and imports, and
every sequence of writes to their slots, refused ones included, collecting again finds the
same imports in the same order, each with the pointer that was written to its slot last.
So every lookup finds the slots that it found before; and when the slots hold their first
pointers again, memory is what it was. -/
theorem imports_hooked {b : Build} {mods : List (LoadedModule b)} {d : Debugger b} {P : Psapi b}
    {stack : ℕ → HMODULE b} {hProcess_ : HANDLE} (hapart : SlotsApart mods d.os.memory)
    (hprocess : hProcess_ ≠ 0) (hok : P.refuses = false)
    (hmods : P.modules = mods.map (·.image.base)) (hle : mods.length ≤ 1024)
    (rs : List (Redirection (allSlots mods))) :
    let d' := rs.foldl (fun d r => r.run d) d
    let f := Redirection.lastPointer d.os.memory rs
    ∃ imports : Imports b,
      imports.entries_ = mods.flatMap (fun M => M.records (some (P.fileName M.image.base))) ∧
      Yields (fun n => collect n d.os.memory P stack hProcess_) (true, imports) ∧
      Yields (fun n => collect n d'.os.memory P stack hProcess_) (true, imports.retarget f) ∧
      (∀ module dll func,
        (imports.retarget f).findImport module dll func =
          (imports.findImport module dll func).map (FunctionAddress.retarget f) ∧
        (imports.retarget f).findImports dll func =
          (imports.findImports dll func).map (FunctionAddress.retarget f)) ∧
      ((∀ s ∈ allSlots mods,
          (f s.address).getD (s.pointer d.os.memory) = s.pointer d.os.memory) →
        d'.os.memory.bytes = d.os.memory.bytes) := by
  intro d' f
  have hlen : P.modules.length ≤ 1024 := by
    rw [hmods, List.length_map]
    exact hle
  have hcollect : ∀ m imports, Yields (fun n => collectModules n m P P.modules ⟨[]⟩) imports →
      Yields (fun n => collect n m P stack hProcess_) (true, imports) := by
    intro m imports h
    simp only [collect_of_le _ m stack hprocess hok hlen]
    exact h.map _
  have hfirst := collectModules_yields (P := P) (m := d.os.memory) mods
    (fun M hM imports => by
      have h := M.collectModuleIat (some (P.fileName M.image.base)) imports
      rwa [hapart.memory M hM] at h) ⟨[]⟩
  have hsecond := collectModules_yields (P := P) (m := d'.os.memory) mods
    (fun M hM imports => M.collectModuleIat_again
      (by rw [hapart.memory M hM]; exact (foldl_sameProtection rs d).1)
      (fun a ha => by
        rw [hapart.memory M hM]
        exact foldl_bytes rs (fun s hs => hapart.reads M hM s hs a ha) d)
      (some (P.fileName M.image.base)) imports) ⟨[]⟩
  rw [← hmods] at hfirst hsecond
  refine ⟨_, rfl, hcollect _ _ hfirst, ?_, fun module dll func => ⟨?_, ?_⟩, ?_⟩
  · have hrecords : mods.flatMap (fun M =>
        (M.records (some (P.fileName M.image.base))).map (IatRecord.reread d'.os.memory M.is64)) =
        (mods.flatMap (fun M => M.records (some (P.fileName M.image.base)))).map
          (IatRecord.retarget f) := by
      rw [List.map_flatMap]
      apply List.flatMap_congr
      intro M hM
      exact List.map_congr_left (fun r hr => hapart.reread rs hM hr)
    rw [hrecords] at hsecond
    exact hcollect _ _ hsecond
  · exact findImport_retarget f _ module dll func
  · exact select_retarget f _ (fun _ => rfl)
  · exact hapart.separated.foldl_restores rs

def twoModule : LoadedModule .x86 where
  image := Image.twoImports
  ntRva := 0x40
  is64 := false
  importDir := ⟨0x138, 0x28⟩
  dlls := [⟨[0x6B], 0x170, [⟨.byOrdinal 7, 0x10⟩, ⟨.byName [0x66], 0x20⟩]⟩]
  headers := Image.twoImports_headers
  table := Image.twoImports_table

theorem twoModule_slots {s : IatSlot .x86} (hs : s ∈ allSlots [twoModule]) :
    s = ⟨Image.twoImports.va 0x170, false⟩ ∨ s = ⟨Image.twoImports.va 0x174, false⟩ := by
  obtain ⟨M, hM, dll, hdll, i, hi, rfl⟩ := hs
  obtain rfl := List.mem_singleton.mp hM
  obtain rfl := List.mem_singleton.mp hdll
  have hi' : i = 0 ∨ i = 1 := Nat.le_one_iff_eq_zero_or_eq_one.mp (Nat.le_of_lt_succ hi)
  rcases hi' with rfl | rfl
  · exact Or.inl rfl
  · exact Or.inr rfl

theorem twoModule_reads {a : LPVOID .x86} (ha : a ∈ twoModule.reads) :
    a.toNat < 0x400170 ∨ 0x400178 ≤ a.toNat := by
  have hdescriptor : Image.twoImports.value ImageImportDescriptor 0x138 =
      ⟨0x160, 0x180, 0x170⟩ := by decide +kernel
  have hname : (0x180 : DWORD).toNat = 0x180 := rfl
  have hoft : (0x160 : DWORD).toNat = 0x160 := rfl
  have hthunk : (Image.twoImports.thunk false 0x164).toNat = 0x188 := by decide +kernel
  obtain ⟨k, hk, rfl⟩ := ha
  have hva : k < 0x200 → (Image.twoImports.va k).toNat = 0x400000 + k := fun hlt =>
    Image.toNat_va hlt
  have hk' : k ∈ Image.headerReads false 0x40 ∪ Image.twoImports.tableReads false 0x138
      [⟨[0x6B], 0x170, [⟨.byOrdinal 7, 0x10⟩, ⟨.byName [0x66], 0x20⟩]⟩] := hk
  have hbounds : k < 0x170 ∨ 0x178 ≤ k ∧ k < 0x200 := by
    simp only [Image.headerReads, Image.tableReads, hdescriptor, Image.dllReads, Image.thunkReads,
      Image.nameReads, mem_union, mem_Ico, mem_empty_iff_false, or_false, Pod.size, psize,
      hname, hoft, Nat.reduceAdd, hthunk, List.length_cons, List.length_nil, Bool.false_eq_true,
      if_false] at hk'
    omega
  change (Image.twoImports.va k).toNat < 0x400170 ∨ 0x400178 ≤ (Image.twoImports.va k).toNat
  rw [hva (by omega)]
  omega

theorem twoModule_addresses {a : LPVOID .x86} {rva : ℕ} (hrva : rva + 4 ≤ 0x200)
    (ha : a ∈ (⟨Image.twoImports.va rva, false⟩ : IatSlot .x86).addresses) :
    0x400000 + rva ≤ a.toNat ∧ a.toNat < 0x400000 + rva + 4 := by
  obtain ⟨k, hk, rfl⟩ := ha
  have hk' : k < 4 := hk
  have hva : (Image.twoImports.va (rva + k)).toNat = 0x400000 + (rva + k) :=
    Image.toNat_va (Nat.lt_of_lt_of_le (Nat.add_lt_add_left hk' rva) hrva)
  rw [Image.va_add, hva]
  omega

theorem twoModule_apart : SlotsApart [twoModule] Image.twoImports.memory := by
  refine ⟨fun M hM => ?_, fun s hs t ht hne a has hat => ?_, fun M hM s hs a ha has => ?_⟩
  · rw [List.mem_singleton.mp hM]
    rfl
  · rcases twoModule_slots hs with rfl | rfl <;> rcases twoModule_slots ht with rfl | rfl
    · exact hne rfl
    · have hlow := (twoModule_addresses (by decide) has).2
      have hhigh := (twoModule_addresses (by decide) hat).1
      omega
    · have hlow := (twoModule_addresses (by decide) hat).2
      have hhigh := (twoModule_addresses (by decide) has).1
      omega
    · exact hne rfl
  · obtain rfl := List.mem_singleton.mp hM
    have hreads := twoModule_reads ha
    rcases twoModule_slots hs with rfl | rfl
    · have hin := twoModule_addresses (by decide) has
      omega
    · have hin := twoModule_addresses (by decide) has
      omega

theorem imports_hooked_twice :
    let d : Debugger .x86 :=
      .new { Os.ofCode (fun _ => 0) [7] with memory := Image.twoImports.memory }
    let P : Psapi .x86 := ⟨[0x400000], fun _ => [], false⟩
    let slot : allSlots [twoModule] :=
      ⟨⟨Image.twoImports.va 0x174, false⟩, twoModule, List.mem_singleton_self _, _,
        List.mem_singleton_self _, 1, by decide, rfl⟩
    let d' := ((⟨slot, 0x1000⟩ : Redirection _).run d)
    let d'' := ((⟨slot, 0x1234⟩ : Redirection _).run d')
    Yields (fun n => collect n d''.os.memory P (fun _ => 0) 1)
      (true, ⟨[⟨[], 0x400000, [0x6B], true, 7, [], 0x400170, 0x10, 0x400170, 0⟩,
        ⟨[], 0x400000, [0x6B], false, 0, [0x66], 0x400174, 0x1234, 0x400170, 1⟩]⟩) := by
  intro d P slot d' d''
  obtain ⟨imports, hentries, -, hagain, -⟩ := @imports_hooked .x86 [twoModule] d P (fun _ => 0) 1
    twoModule_apart (by decide) rfl rfl (by decide) [⟨slot, 0x1000⟩, ⟨slot, 0x1234⟩]
  have himports : imports = ⟨twoModule.records (some [])⟩ := by
    obtain ⟨entries⟩ := imports
    exact congrArg Imports.mk (hentries.trans (List.append_nil _))
  rw [himports] at hagain
  exact hagain

end Modules
end RoboDbg
