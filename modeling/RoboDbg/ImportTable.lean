import RoboDbg.Imports

/-!
# Import tables

A PE image that lies in the debuggee holds an import table: a list of DLLs, each
with its imports by ordinal or by name and the pointers that the loader stored
for them. `Image.DescriptorTable` says how the image lays such a table out;
`collectModuleIat` reads it back, one record for each import.
-/

namespace RoboDbg

open Loops Imports

variable {b : Build}

/-- A module that is mapped in the debuggee, all of it readable. -/
structure Image (b : Build) where
  memory : Memory b
  base : HMODULE b
  sizeOfImage : DWORD
  fits : base.toNat + sizeOfImage.toNat ≤ 2 ^ b.bits
  readable : ∀ k < sizeOfImage.toNat, memory.readable (base + BitVec.ofNat _ k) = true

inductive ImportedAs
  | byOrdinal (ordinal : WORD)
  | byName (name : Text)

/-- An import and the pointer in its slot of the import address table. -/
structure ImportEntry where
  importedAs : ImportedAs
  pointer : ULONGLONG

structure DllEntry where
  name : Text
  firstThunk : DWORD
  imports : List ImportEntry

namespace Image

def va (img : Image b) (rva : ℕ) : LPVOID b := img.base + BitVec.ofNat _ rva

def value (img : Image b) (α : Type) [Pod α] (rva : ℕ) : α :=
  Pod.ofBytes (img.memory.view (img.va rva) (Pod.size α))

def Inside (img : Image b) (rva n : ℕ) : Prop := rva + n ≤ img.sizeOfImage.toNat

instance (img : Image b) (rva n : ℕ) : Decidable (img.Inside rva n) :=
  inferInstanceAs (Decidable (_ ≤ _))

structure HoldsText (img : Image b) (rva : ℕ) (s : Text) : Prop where
  inside : img.Inside rva (s.length + 1)
  noNul : 0 ∉ s
  bytes : img.memory.view (img.va rva) (s.length + 1) = s ++ [0]

def optionalMagic (is64 : Bool) : WORD :=
  if is64 then IMAGE_NT_OPTIONAL_HDR64_MAGIC else IMAGE_NT_OPTIONAL_HDR32_MAGIC

/-- The headers lie in the image, name its size and have a non-empty entry for
the import directory. -/
structure HasHeaders (img : Image b) (ntRva : ℕ) (is64 : Bool) (importDir : ImageDataDirectory) :
    Prop where
  dosInside : img.Inside 0 (Pod.size ImageDosHeader)
  dosSignature : (img.value ImageDosHeader 0).e_magic = IMAGE_DOS_SIGNATURE
  lfanew : (img.value ImageDosHeader 0).e_lfanew.signExtend b.bits = BitVec.ofNat _ ntRva
  ntInside : img.Inside ntRva (Pod.size (ImageNtHeaders is64))
  ntSignature : img.value DWORD ntRva = IMAGE_NT_SIGNATURE
  magic : img.value WORD (ntRva + 24) = optionalMagic is64
  size : (img.value (ImageNtHeaders is64) ntRva).SizeOfImage = img.sizeOfImage
  directory : (img.value (ImageNtHeaders is64) ntRva).DataDirectory
    IMAGE_DIRECTORY_ENTRY_IMPORT = importDir
  nonempty : importDir.VirtualAddress ≠ 0 ∧ importDir.Size ≠ 0

/-- A thunk or slot of the width that the format has. -/
def thunk (img : Image b) (is64 : Bool) (rva : ℕ) : ULONGLONG :=
  if is64 then img.value ULONGLONG rva else (img.value DWORD rva).setWidth 64

/-- What a thunk says: an ordinal with the flag set, or where hint and name lie. -/
def Denotes (img : Image b) (is64 : Bool) (thunkVal : ULONGLONG) : ImportedAs → Prop
  | .byOrdinal ordinal => thunkVal &&& ordFlag is64 ≠ 0 ∧ thunkVal.setWidth 16 = ordinal
  | .byName name => thunkVal &&& ordFlag is64 = 0 ∧ thunkVal ≠ 0 ∧ name ≠ [] ∧
      img.HoldsText (thunkVal.toNat + 2) name

/-- The thunks from `oft` on up to the zero that closes them, and the slots from `ft`
on that belong to them. -/
inductive ThunkTable (img : Image b) (is64 : Bool) : ℕ → ℕ → List ImportEntry → Prop
  | nil {oft ft : ℕ} (inside : img.Inside oft (psize is64)) (zero : img.thunk is64 oft = 0) :
      ThunkTable img is64 oft ft []
  | cons {oft ft : ℕ} {e : ImportEntry} {es : List ImportEntry}
      (inside : img.Inside oft (psize is64)) (slotInside : img.Inside ft (psize is64))
      (denotes : img.Denotes is64 (img.thunk is64 oft) e.importedAs)
      (stored : img.thunk is64 ft = e.pointer)
      (rest : ThunkTable img is64 (oft + psize is64) (ft + psize is64) es) :
      ThunkTable img is64 oft ft (e :: es)

/-- A descriptor and everything that it refers to. -/
structure Describes (img : Image b) (is64 : Bool) (imp : ImageImportDescriptor) (dll : DllEntry) :
    Prop where
  originalFirstThunk : imp.OriginalFirstThunk ≠ 0
  firstThunk : imp.FirstThunk = dll.firstThunk
  firstThunk_ne_zero : dll.firstThunk ≠ 0
  name_ne_zero : imp.Name ≠ 0
  name : img.HoldsText imp.Name.toNat dll.name
  thunks : img.ThunkTable is64 imp.OriginalFirstThunk.toNat dll.firstThunk.toNat dll.imports

/-- The descriptors from `rva` on up to the zero one that closes them. -/
inductive DescriptorTable (img : Image b) (is64 : Bool) : ℕ → List DllEntry → Prop
  | nil {rva : ℕ} (inside : img.Inside rva 20)
      (zero : img.value ImageImportDescriptor rva = ⟨0, 0, 0⟩) : DescriptorTable img is64 rva []
  | cons {rva : ℕ} {dll : DllEntry} {dlls : List DllEntry} (inside : img.Inside rva 20)
      (describes : img.Describes is64 (img.value ImageImportDescriptor rva) dll)
      (rest : DescriptorTable img is64 (rva + 20) dlls) :
      DescriptorTable img is64 rva (dll :: dlls)

end Image

/-! ## The records of a table -/

def ImportedAs.isOrdinal : ImportedAs → Bool
  | .byOrdinal _ => true
  | .byName _ => false

def ImportedAs.ordinal : ImportedAs → WORD
  | .byOrdinal ordinal => ordinal
  | .byName _ => 0

def ImportedAs.name : ImportedAs → Text
  | .byOrdinal _ => []
  | .byName name => name

/-- The record of the import at index `i` of a DLL; `target` is the stored pointer as an
`uintptr_t`. -/
def Image.record (img : Image b) (is64 : Bool) (modulePath : Option Text) (dll : DllEntry)
    (i : ℕ) (e : ImportEntry) : IatRecord b where
  modulePath := modulePath.getD []
  moduleBase := img.base
  dllName := dll.name
  byOrdinal := e.importedAs.isOrdinal
  ordinal := e.importedAs.ordinal
  funcName := e.importedAs.name
  iatSlot := img.va (dll.firstThunk.toNat + i * psize is64)
  target := e.pointer.setWidth b.bits
  iatBase := img.va dll.firstThunk.toNat
  index := BitVec.ofNat _ i

def Image.records (img : Image b) (is64 : Bool) (modulePath : Option Text) (dll : DllEntry) :
    List (IatRecord b) :=
  dll.imports.mapIdx (img.record is64 modulePath dll)

/-! ## Reading from an image -/

namespace Image

variable {img : Image b}

theorem va_add (rva k : ℕ) : img.va rva + BitVec.ofNat _ k = img.va (rva + k) := by
  simp only [va, BitVec.ofNat_add, BitVec.add_assoc]

theorem rvaToVa_eq (rva : DWORD) : rvaToVa img.base rva = img.va rva.toNat := by
  rw [rvaToVa, va, BitVec.ofNat_toNat]

theorem readProcessMemory_eq {rva n : ℕ} (h : img.Inside rva n) :
    img.memory.readProcessMemory (img.va rva) n = some (img.memory.view (img.va rva) n) := by
  refine Memory.readProcessMemory_eq (fun k hk => ?_)
  rw [va_add]
  exact img.readable (rva + k) (by unfold Inside at h; omega)

theorem readMemory_eq {α : Type} [Pod α] {rva : ℕ} (h : img.Inside rva (Pod.size α)) :
    img.memory.readMemory α (img.va rva) = img.value α rva := by
  rw [Memory.readMemory, readProcessMemory_eq h, value, Option.getD_some]

theorem readThunk_eq {is64 : Bool} {rva : ℕ} (h : img.Inside rva (psize is64)) :
    readThunk img.memory is64 (img.va rva) = img.thunk is64 rva := by
  cases is64 with
  | true => exact readMemory_eq (α := ULONGLONG) h
  | false => exact congrArg (BitVec.setWidth 64) (readMemory_eq (α := DWORD) h)

theorem HoldsText.drop {rva : ℕ} {pre rest : Text} (h : img.HoldsText rva (pre ++ rest)) :
    img.HoldsText (rva + pre.length) rest := by
  have hin := h.inside
  have hlen : (pre ++ rest).length + 1 = pre.length + (rest.length + 1) := by
    rw [List.length_append, Nat.add_assoc]
  have hbytes := h.bytes
  rw [hlen, Memory.view_add, va_add, List.append_assoc] at hbytes
  refine ⟨?_, fun hmem => h.noNul (List.mem_append_right pre hmem), ?_⟩
  · unfold Inside at hin ⊢
    omega
  · exact (List.append_inj hbytes (Memory.length_view _ _ _)).2

theorem HoldsText.view_take {rva k : ℕ} {s : Text} (h : img.HoldsText rva s) (hk : k ≤ s.length) :
    img.memory.view (img.va rva) k = s.take k := by
  have htake := congrArg (List.take k) h.bytes
  rwa [Memory.take_view _ _ (hk.trans (Nat.le_succ _)), List.take_append_of_le_length hk] at htake

theorem HoldsText.view_nul {rva k : ℕ} {s : Text} (h : img.HoldsText rva s) (hk : s.length < k) :
    ∃ more, img.memory.view (img.va rva) k = s ++ 0 :: more := by
  have hlen : k = s.length + 1 + (k - (s.length + 1)) := by omega
  rw [hlen, Memory.view_add, h.bytes, List.append_assoc]
  exact ⟨_, rfl⟩

theorem two_pow_le_bits : 2 ^ 32 ≤ 2 ^ b.bits := by
  cases b <;> decide

theorem toNat_ofNat_of_lt {k : ℕ} (h : k < 2 ^ b.bits) : (BitVec.ofNat b.bits k).toNat = k := by
  rw [BitVec.toNat_ofNat, Nat.mod_eq_of_lt h]

theorem toNat_va {rva : ℕ} (h : rva < img.sizeOfImage.toNat) :
    (img.va rva).toNat = img.base.toNat + rva := by
  have hfits := img.fits
  have hmod : (img.base.toNat + rva) % 2 ^ b.bits = img.base.toNat + rva :=
    Nat.mod_eq_of_lt (by omega)
  rw [va, BitVec.toNat_add, BitVec.toNat_ofNat, Nat.add_mod_mod, hmod]

theorem spanLeftInModule_eq {rva : ℕ} (h : rva < img.sizeOfImage.toNat) :
    spanLeftInModule img.base (img.va rva) img.sizeOfImage =
      BitVec.ofNat _ (img.sizeOfImage.toNat - rva) := by
  have hva := toNat_va h
  have hsize : img.sizeOfImage.toNat < 2 ^ b.bits :=
    img.sizeOfImage.isLt.trans_le two_pow_le_bits
  have hbase : ¬ img.va rva < img.base := by
    rw [BitVec.lt_def, hva]
    omega
  have hoff : img.va rva - img.base = BitVec.ofNat _ rva := by
    rw [va, BitVec.add_comm, BitVec.add_sub_cancel]
  have hspan : ¬ img.sizeOfImage.setWidth b.bits ≤ BitVec.ofNat _ rva := by
    rw [BitVec.le_def, BitVec.toNat_setWidth, Nat.mod_eq_of_lt hsize,
      toNat_ofNat_of_lt (h.trans hsize)]
    omega
  have hsub : img.sizeOfImage.setWidth b.bits - BitVec.ofNat _ rva =
      BitVec.ofNat _ (img.sizeOfImage.toNat - rva) := by
    rw [← BitVec.ofNat_sub_ofNat_of_le _ _ (h.trans hsize) h.le, BitVec.ofNat_toNat]
  simp only [spanLeftInModule, hbase, if_false, hoff, hspan, hsub]

/-! ## Strings -/

theorem toRead_eq {L k : ℕ} (hL : L < 2 ^ b.bits) (hk : k ≤ L) :
    let left : SIZE_T b := BitVec.ofNat _ L - BitVec.ofNat _ k
    (if left < 256 then left else 256) = BitVec.ofNat _ (min (L - k) 256) := by
  intro left
  have h256 : (256 : SIZE_T b) = BitVec.ofNat _ 256 := rfl
  have hleft : left = BitVec.ofNat _ (L - k) :=
    BitVec.ofNat_sub_ofNat_of_le _ _ (hk.trans_lt hL) hk
  have h256lt : 256 < 2 ^ b.bits := lt_of_lt_of_le (by decide) two_pow_le_bits
  have hlt : left < 256 ↔ L - k < 256 := by
    rw [hleft, h256, BitVec.lt_def, toNat_ofNat_of_lt (by omega), toNat_ofNat_of_lt h256lt]
  by_cases hc : L - k < 256
  · rw [if_pos (hlt.mpr hc), hleft, min_eq_left hc.le]
  · rw [if_neg (fun h => hc (hlt.mp h)), min_eq_right (not_lt.mp hc), h256]

theorem chunkPass_eq {rva L k : ℕ} (hL : rva + L = img.sizeOfImage.toNat) (hk : k < L)
    (s : Text) :
    chunkPass img.memory (img.va rva) (BitVec.ofNat _ L) (s, BitVec.ofNat _ k) =
      scanChunk (s, BitVec.ofNat _ k) (BitVec.ofNat _ (min (L - k) 256))
        (img.memory.view (img.va (rva + k)) (min (L - k) 256)) := by
  have hLlt : L < 2 ^ b.bits := by
    have hsize := img.sizeOfImage.isLt.trans_le (two_pow_le_bits (b := b))
    omega
  have hlt : (BitVec.ofNat b.bits k) < BitVec.ofNat _ L := by
    rw [BitVec.lt_def, toNat_ofNat_of_lt hLlt, toNat_ofNat_of_lt (hk.trans hLlt)]
    exact hk
  have hto : (BitVec.ofNat b.bits (min (L - k) 256)).toNat = min (L - k) 256 :=
    toNat_ofNat_of_lt (by omega)
  have hread : img.memory.readProcessMemory (img.va (rva + k)) (min (L - k) 256) =
      some (img.memory.view (img.va (rva + k)) (min (L - k) 256)) :=
    readProcessMemory_eq (by unfold Inside; omega)
  simp only [chunkPass, chunkPassWith, hlt, if_true, toRead_eq hLlt hk.le, hto, va_add, hread]

theorem findIdx_nul {s : Text} (h : 0 ∉ s) (more : Text) :
    (s ++ 0 :: more).findIdx? (· = 0) = some s.length := by
  have hs : s.findIdx? (· = 0) = none :=
    List.findIdx?_eq_none_iff.mpr (fun x hx => decide_eq_false (fun h0 => h (h0 ▸ hx)))
  rw [List.findIdx?_append, hs, List.findIdx?_cons]
  simp

/-- The chunk that holds the NUL ends the loop, every other one is appended whole. -/
theorem chunks_end {rva : ℕ} (pre : Text) {rest : Text} (h : img.HoldsText rva (pre ++ rest)) :
    ∃ off, Ends (fun _ r => some (chunkPass img.memory (img.va rva)
        (BitVec.ofNat _ (img.sizeOfImage.toNat - rva)) r))
      (pre, BitVec.ofNat _ pre.length) (pre ++ rest, off) := by
  -- induction on what is left of the text
  induction hn : rest.length using Nat.strong_induction_on generalizing pre rest with
  | _ n ih =>
    have hrest := h.drop
    have hin := h.inside
    have hnoNul : 0 ∉ rest := fun hmem => h.noNul (List.mem_append_right pre hmem)
    rw [Inside, List.length_append] at hin
    let L := img.sizeOfImage.toNat - rva
    have hL : rva + L = img.sizeOfImage.toNat := by omega
    have hpass := chunkPass_eq (k := pre.length) hL (by omega) pre
    let toRead := min (L - pre.length) 256
    by_cases hlast : rest.length < toRead
    · obtain ⟨more, hmore⟩ := hrest.view_nul hlast
      have hfind := findIdx_nul hnoNul more
      refine ⟨BitVec.ofNat _ pre.length, Ends.done ?_⟩
      rw [hpass, scanChunk, hmore]
      simp only [hfind, List.take_left]
      exact Yields.const _
    · have hlen : toRead ≤ rest.length := by omega
      have hchunk := hrest.view_take hlen
      have hfind : (rest.take toRead).findIdx? (· = 0) = none :=
        List.findIdx?_eq_none_iff.mpr (fun x hx =>
          decide_eq_false (fun h0 => hnoNul (h0 ▸ List.mem_of_mem_take hx)))
      have hsplit : pre ++ rest = (pre ++ rest.take toRead) ++ rest.drop toRead := by
        rw [List.append_assoc, List.take_append_drop]
      have hpos : 0 < toRead := by omega
      have hshort : (rest.drop toRead).length < n := by
        rw [List.length_drop]
        omega
      obtain ⟨off, hoff⟩ := ih _ hshort _ (hsplit ▸ h) rfl
      rw [← hsplit] at hoff
      refine ⟨off, Ends.again ?_ hoff⟩
      rw [hpass, scanChunk, hchunk]
      have hoff : (pre ++ rest.take toRead).length = pre.length + toRead := by
        rw [List.length_append, List.length_take_of_le hlen]
      simp only [hfind, hoff, BitVec.ofNat_add]
      exact Yields.const _

theorem HoldsText.lt {rva : ℕ} {s : Text} (h : img.HoldsText rva s) :
    rva < img.sizeOfImage.toNat := by
  have hin := h.inside
  unfold Inside at hin
  omega

theorem HoldsText.readCString {rva : ℕ} {s : Text} (h : img.HoldsText rva s) :
    Yields (fun n => readCString n img.memory (img.va rva)
      (spanLeftInModule img.base (img.va rva) img.sizeOfImage)) s := by
  obtain ⟨off, hoff⟩ := chunks_end [] h
  rw [spanLeftInModule_eq h.lt]
  exact hoff.yields.map Prod.fst

/-! ## Headers -/

theorem HasHeaders.getNtInfo {ntRva : ℕ} {is64 : Bool} {importDir : ImageDataDirectory}
    (h : img.HasHeaders ntRva is64 importDir) :
    getNtInfo img.memory img.base = some ⟨is64, img.sizeOfImage, importDir⟩ := by
  have hdos : img.memory.readMemory ImageDosHeader img.base = img.value ImageDosHeader 0 := by
    have hbase : img.base = img.va 0 := (BitVec.add_zero _).symm
    rw [hbase]
    exact readMemory_eq h.dosInside
  have hnt : img.base + (img.value ImageDosHeader 0).e_lfanew.signExtend b.bits = img.va ntRva := by
    rw [h.lfanew, va]
  have hmagicInside : img.Inside (ntRva + 24) 2 := by
    have hsize : 26 ≤ Pod.size (ImageNtHeaders is64) := by
      cases is64 <;> decide
    have hin := h.ntInside
    unfold Inside at hin ⊢
    omega
  have hsig : img.memory.readMemory DWORD (img.va ntRva) = IMAGE_NT_SIGNATURE := by
    refine (readMemory_eq ?_).trans h.ntSignature
    unfold Inside at hmagicInside ⊢
    change ntRva + 4 ≤ _
    omega
  have hmagic : img.memory.readMemory WORD (img.va ntRva + 24) = optionalMagic is64 := by
    have h24 : img.va ntRva + 24 = img.va (ntRva + 24) := va_add ntRva 24
    rw [h24]
    exact (readMemory_eq hmagicInside).trans h.magic
  have hnth := readMemory_eq h.ntInside
  simp only [Imports.getNtInfo, hdos, h.dosSignature, hnt, hsig, hmagic, ne_eq, not_true_eq_false,
    if_false]
  cases is64 with
  | true =>
    have hm : optionalMagic true = IMAGE_NT_OPTIONAL_HDR64_MAGIC := rfl
    simp only [hm, if_true, hnth, h.size, h.directory]
    exact if_pos (decide_eq_true h.nonempty)
  | false =>
    have hm : optionalMagic false = IMAGE_NT_OPTIONAL_HDR32_MAGIC := rfl
    have hne : IMAGE_NT_OPTIONAL_HDR32_MAGIC ≠ IMAGE_NT_OPTIONAL_HDR64_MAGIC := by decide
    simp only [hm, hne, if_false, if_true, hnth, h.size, h.directory]
    exact if_pos (decide_eq_true h.nonempty)

/-! ## Thunks -/

theorem Denotes.ne_zero {is64 : Bool} {thunkVal : ULONGLONG} {k : ImportedAs}
    (h : img.Denotes is64 thunkVal k) : thunkVal ≠ 0 := by
  cases k with
  | byOrdinal ordinal =>
    rintro rfl
    exact h.1 BitVec.zero_and
  | byName name => exact h.2.1

theorem and_not_of_and_eq_zero {w : ℕ} {x flag : BitVec w} (h : x &&& flag = 0) :
    x &&& ~~~flag = x := by
  ext i hi
  have hbit : (x &&& flag)[i] = false := by
    rw [h]
    exact BitVec.getElem_zero hi
  rw [BitVec.getElem_and, Bool.and_eq_false_iff] at hbit
  rw [BitVec.getElem_and, BitVec.getElem_not]
  rcases hbit with hx | hf
  · rw [hx, Bool.false_and]
  · rw [hf, Bool.not_false, Bool.and_true]

theorem slot_eq (rva i size : ℕ) :
    img.va rva + BitVec.ofNat _ i * BitVec.ofNat _ size = img.va (rva + i * size) := by
  rw [← BitVec.ofNat_mul, va_add]

theorem nameVA_eq {is64 : Bool} {thunkVal : ULONGLONG} {name : Text}
    (h : img.Denotes is64 thunkVal (.byName name)) :
    rvaToVa img.base ((thunkVal &&& ~~~ordFlag is64).setWidth 32) + 2 =
      img.va (thunkVal.toNat + 2) := by
  have hlt : thunkVal.toNat < 2 ^ 32 := by
    have hname := h.2.2.2.lt
    have hsize := img.sizeOfImage.isLt
    omega
  have hrva : (thunkVal.setWidth 32).toNat = thunkVal.toNat := by
    rw [BitVec.toNat_setWidth, Nat.mod_eq_of_lt hlt]
  rw [and_not_of_and_eq_zero h.1, rvaToVa_eq, hrva]
  exact va_add thunkVal.toNat 2

section Table

variable (img) (is64 : Bool) (importDir : ImageDataDirectory) (modulePath : Option Text)

/-- The image as the loops of `collectModuleIat` know it. -/
def asModule : Module b := ⟨img.memory, img.base, modulePath, ⟨is64, img.sizeOfImage, importDir⟩⟩

variable {img is64} {dll : DllEntry}

theorem thunkPass_again {e : ImportEntry} {oft i : ℕ} (acc : List (IatRecord b))
    (hoft : img.Inside (oft + i * psize is64) (psize is64))
    (hslot : img.Inside (dll.firstThunk.toNat + i * psize is64) (psize is64))
    (hdenotes : img.Denotes is64 (img.thunk is64 (oft + i * psize is64)) e.importedAs)
    (hstored : img.thunk is64 (dll.firstThunk.toNat + i * psize is64) = e.pointer) :
    Yields (fun n => thunkPass n (img.asModule is64 importDir modulePath) dll.name (img.va oft)
        (img.va dll.firstThunk.toNat) (BitVec.ofNat _ i, acc))
      (.again (BitVec.ofNat _ (i + 1), acc ++ [img.record is64 modulePath dll i e])) := by
  have hthunk := readThunk_eq hoft
  have htarget := (readThunk_eq hslot).trans hstored
  have hnext : BitVec.ofNat b.bits i + 1 = BitVec.ofNat _ (i + 1) := (BitVec.ofNat_add i 1).symm
  have hne := hdenotes.ne_zero
  obtain ⟨k, pointer⟩ := e
  simp only [thunkPass, thunkPassWith, asModule, slot_eq, hthunk, htarget, hne, if_false, hnext]
  cases k with
  | byOrdinal ordinal =>
    have hflag := hdenotes.1
    have hordinal := hdenotes.2
    simp only [hflag, ne_eq, not_false_eq_true, if_true, hordinal]
    exact Yields.const _
  | byName name =>
    have hflag := hdenotes.1
    have hname : name.isEmpty = false := List.isEmpty_eq_false_iff.mpr hdenotes.2.2.1
    have hread := hdenotes.2.2.2.readCString.map (fun name : Text =>
      let funcName := if name.isEmpty then literal "<name-read-failed>" else name
      let e : ImportEntry := ⟨.byName funcName, pointer⟩
      Pass.again (BitVec.ofNat b.bits (i + 1), acc ++ [img.record is64 modulePath dll i e]))
    simp only [hname, Bool.false_eq_true, if_false] at hread
    simp only [hflag, ne_eq, not_true_eq_false, if_false, nameVA_eq hdenotes]
    exact hread

theorem thunks_end {oft i : ℕ} {es : List ImportEntry}
    (h : img.ThunkTable is64 (oft + i * psize is64) (dll.firstThunk.toNat + i * psize is64) es)
    (acc : List (IatRecord b)) :
    ∃ j, Ends (fun n => thunkPass n (img.asModule is64 importDir modulePath) dll.name (img.va oft)
        (img.va dll.firstThunk.toNat))
      (BitVec.ofNat _ i, acc)
      (j, acc ++ es.mapIdx (fun k => img.record is64 modulePath dll (i + k))) := by
  induction es generalizing i acc with
  | nil =>
    cases h with
    | nil inside zero =>
      refine ⟨BitVec.ofNat _ i, Ends.done ?_⟩
      have hthunk := (readThunk_eq inside).trans zero
      simp only [thunkPass, thunkPassWith, asModule, slot_eq, hthunk, if_true, List.mapIdx_nil, List.append_nil]
      exact Yields.const _
  | cons e es ih =>
    cases h with
    | cons inside slotInside denotes stored rest =>
      have hpass := thunkPass_again importDir modulePath acc inside slotInside denotes stored
      have hadd (x : ℕ) : x + i * psize is64 + psize is64 = x + (i + 1) * psize is64 := by
        rw [Nat.add_mul, Nat.one_mul, Nat.add_assoc]
      rw [hadd, hadd] at rest
      obtain ⟨j, hj⟩ := ih rest (acc ++ [img.record is64 modulePath dll i e])
      refine ⟨j, Ends.again hpass ?_⟩
      have hidx : (fun k => img.record is64 modulePath dll (i + (k + 1))) =
          fun k => img.record is64 modulePath dll (i + 1 + k) := by
        funext k
        rw [Nat.add_right_comm i 1 k, Nat.add_assoc]
      rw [List.append_assoc, List.singleton_append] at hj
      rwa [List.mapIdx_cons, hidx, Nat.add_zero]

/-! ## Descriptors -/

theorem Describes.readDllName {imp : ImageImportDescriptor} (h : img.Describes is64 imp dll) :
    Yields (fun n => readDllName n (img.asModule is64 importDir modulePath) imp) dll.name := by
  simp only [Imports.readDllName, Imports.readDllNameWith, h.name_ne_zero, ne_eq, not_false_eq_true, if_true, asModule,
    rvaToVa_eq]
  exact h.name.readCString

theorem ThunkTable.lt {oft ft : ℕ} {es : List ImportEntry} (h : img.ThunkTable is64 oft ft es) :
    oft < img.sizeOfImage.toNat := by
  have hpos : 0 < psize is64 := by cases is64 <;> decide
  cases h with
  | nil inside =>
    unfold Inside at inside
    omega
  | cons inside =>
    unfold Inside at inside
    omega

/-- Behind the end of the image there is no slot. -/
theorem ThunkTable.imports_eq_nil {oft : ℕ} {ft : DWORD} {es : List ImportEntry}
    (h : img.ThunkTable is64 oft ft.toNat es) (hft : img.sizeOfImage ≤ ft) : es = [] := by
  cases es with
  | nil => rfl
  | cons e es =>
    have hpos : 0 < psize is64 := by cases is64 <;> decide
    rw [BitVec.le_def] at hft
    cases h with
    | cons inside slotInside =>
      unfold Inside at slotInside
      omega

theorem descriptor_eq {rva : DWORD} {j : ℕ} (h : img.Inside (rva.toNat + j * 20) 20) :
    img.memory.readMemory ImageImportDescriptor
        (rvaToVa img.base rva + (BitVec.ofNat 32 j).setWidth b.bits * 20) =
      img.value ImageImportDescriptor (rva.toNat + j * 20) := by
  have hj : j < 2 ^ 32 := by
    have hsize := img.sizeOfImage.isLt
    unfold Inside at h
    omega
  have hidx : (BitVec.ofNat 32 j).setWidth b.bits = BitVec.ofNat _ j := by
    rw [← BitVec.ofNat_toNat, BitVec.toNat_ofNat, Nat.mod_eq_of_lt hj]
  have h20 : (20 : LPVOID b) = BitVec.ofNat _ 20 := rfl
  rw [hidx, rvaToVa_eq, h20, slot_eq]
  exact readMemory_eq h

theorem descriptorPass_again {j : ℕ} (acc : List (IatRecord b))
    (hinside : img.Inside (importDir.VirtualAddress.toNat + j * 20) 20)
    (h : img.Describes is64
      (img.value ImageImportDescriptor (importDir.VirtualAddress.toNat + j * 20)) dll) :
    Yields (fun n =>
        descriptorPass n (img.asModule is64 importDir modulePath) (BitVec.ofNat _ j, acc))
      (.again (BitVec.ofNat _ (j + 1), acc ++ img.records is64 modulePath dll)) := by
  have himp := descriptor_eq hinside
  generalize img.value ImageImportDescriptor (importDir.VirtualAddress.toNat + j * 20) = imp
    at h himp
  have hnull : ¬ (imp.Name = 0 ∧ imp.FirstThunk = 0 ∧ imp.OriginalFirstThunk = 0) :=
    fun hz => h.name_ne_zero hz.1
  have hnext : BitVec.ofNat 32 j + 1 = BitVec.ofNat _ (j + 1) := (BitVec.ofNat_add j 1).symm
  have hoft : ¬ img.sizeOfImage ≤ imp.OriginalFirstThunk := by
    rw [BitVec.le_def]
    exact not_le.mpr h.thunks.lt
  have hname := h.readDllName importDir modulePath
  simp only [asModule] at hname
  simp only [descriptorPass, descriptorPassWith, asModule, himp, hnull, if_false]
  simp only [hnext, h.originalFirstThunk, ne_eq, not_false_eq_true, if_true, hoft, false_or,
    h.firstThunk]
  refine hname.bind ?_
  by_cases hft : img.sizeOfImage ≤ dll.firstThunk
  · have hnone : dll.imports = [] := h.thunks.imports_eq_nil hft
    simp only [hft, if_true, records, hnone, List.mapIdx_nil, List.append_nil]
    exact Yields.const _
  · have hthunks := h.thunks
    obtain ⟨i, hi⟩ := thunks_end (i := 0) importDir modulePath
      (by simpa only [Nat.zero_mul, Nat.add_zero] using hthunks) acc
    simp only [asModule, Nat.zero_add] at hi
    simp only [hft, if_false, rvaToVa_eq]
    exact hi.yields.map _

theorem descriptors_end {j : ℕ} {dlls : List DllEntry}
    (h : img.DescriptorTable is64 (importDir.VirtualAddress.toNat + j * 20) dlls)
    (acc : List (IatRecord b)) :
    ∃ k, Ends (fun n => descriptorPass n (img.asModule is64 importDir modulePath))
      (BitVec.ofNat _ j, acc) (k, acc ++ dlls.flatMap (img.records is64 modulePath)) := by
  induction dlls generalizing j acc with
  | nil =>
    cases h with
    | nil inside zero =>
      refine ⟨BitVec.ofNat _ j, Ends.done ?_⟩
      have himp := (descriptor_eq inside).trans zero
      simp only [descriptorPass, descriptorPassWith, asModule, himp, and_self, if_true, List.flatMap_nil,
        List.append_nil]
      exact Yields.const _
  | cons dll dlls ih =>
    cases h with
    | cons inside describes rest =>
      have hpass := descriptorPass_again importDir modulePath acc inside describes
      have hadd : importDir.VirtualAddress.toNat + j * 20 + 20 =
          importDir.VirtualAddress.toNat + (j + 1) * 20 := by omega
      rw [hadd] at rest
      obtain ⟨k, hk⟩ := ih rest (acc ++ img.records is64 modulePath dll)
      rw [List.append_assoc] at hk
      exact ⟨k, Ends.again hpass hk⟩

end Table
end Image

/-- Parsing is exact: the import table of a well-formed image, PE32 or PE32+, of any
length, with names of any length, gives one record for each import, in table order,
and nothing else. -/
theorem collectModuleIat_exact (img : Image b) {ntRva : ℕ} {is64 : Bool}
    {importDir : ImageDataDirectory} {dlls : List DllEntry} (imports : Imports b)
    (modulePath : Option Text) (hheaders : img.HasHeaders ntRva is64 importDir)
    (htable : img.DescriptorTable is64 importDir.VirtualAddress.toNat dlls) :
    Yields (fun n => collectModuleIat n img.memory imports img.base modulePath)
      { imports with
        entries_ := imports.entries_ ++ dlls.flatMap (img.records is64 modulePath) } := by
  obtain ⟨k, hk⟩ := Image.descriptors_end (j := 0) importDir modulePath
    (by simpa only [Nat.zero_mul, Nat.add_zero] using htable)
    imports.entries_
  simp only [collectModuleIat, collectModuleIatWith, hheaders.getNtInfo]
  exact hk.yields.map (fun r => ({ imports with entries_ := r.2 } : Imports b))

/-- A PE32 image with one DLL, `k`, imported from by ordinal 7 and by the name `f`; all
bytes that are not listed are zero. -/
def Image.twoImports : Image .x86 where
  memory := {
    bytes := fun a =>
      let content : List (ℕ × BYTE) := [
        (0x000, 0x4D), (0x001, 0x5A), (0x03C, 0x40), (0x040, 0x50), (0x041, 0x45),
        (0x058, 0x0B), (0x059, 0x01), (0x091, 0x02), (0x0C0, 0x38), (0x0C1, 0x01),
        (0x0C4, 0x28), (0x138, 0x60), (0x139, 0x01), (0x144, 0x80), (0x145, 0x01),
        (0x148, 0x70), (0x149, 0x01), (0x160, 0x07), (0x163, 0x80), (0x164, 0x88),
        (0x165, 0x01), (0x170, 0x10), (0x174, 0x20), (0x180, 0x6B), (0x18A, 0x66)]
      (content.lookup (a - 0x400000).toNat).getD 0
    writer := fun _ => .debuggee
    readable := fun _ => true
    writable := fun _ => true }
  base := 0x400000
  sizeOfImage := 0x200
  fits := by decide
  readable _ _ := rfl

theorem Image.twoImports_headers :
    Image.twoImports.HasHeaders 0x40 false ⟨0x138, 0x28⟩ where
  dosInside := by decide
  dosSignature := by decide +kernel
  lfanew := by decide +kernel
  ntInside := by decide
  ntSignature := by decide +kernel
  magic := by decide +kernel
  size := by decide +kernel
  directory := by decide +kernel
  nonempty := by decide

theorem Image.twoImports_table :
    Image.twoImports.DescriptorTable false 0x138
      [⟨[0x6B], 0x170, [⟨.byOrdinal 7, 0x10⟩, ⟨.byName [0x66], 0x20⟩]⟩] := by
  have hname : Image.twoImports.HoldsText 0x180 [0x6B] :=
    ⟨by decide, by decide, by decide +kernel⟩
  have hf : Image.twoImports.HoldsText 0x18A [0x66] :=
    ⟨by decide, by decide, by decide +kernel⟩
  have hthunks : Image.twoImports.ThunkTable false 0x160 0x170
      [⟨.byOrdinal 7, 0x10⟩, ⟨.byName [0x66], 0x20⟩] := by
    refine .cons (by decide) (by decide) ?_ (by decide +kernel) ?_
    · exact ⟨by decide +kernel, by decide +kernel⟩
    refine .cons (by decide) (by decide) ?_ (by decide +kernel) ?_
    · exact ⟨by decide +kernel, by decide +kernel, by decide, hf⟩
    exact .nil (by decide) (by decide +kernel)
  have hdescriptor : Image.twoImports.value ImageImportDescriptor 0x138 =
      ⟨0x160, 0x180, 0x170⟩ := by decide +kernel
  refine .cons (by decide) ?_ ?_
  · rw [hdescriptor]
    exact ⟨by decide, rfl, by decide, by decide, hname, hthunks⟩
  · exact .nil (by decide) (by decide +kernel)

theorem collectModuleIat_exact_two :
    Yields (fun n => collectModuleIat n Image.twoImports.memory ⟨[]⟩ 0x400000 none)
      ⟨[⟨[], 0x400000, [0x6B], true, 7, [], 0x400170, 0x10, 0x400170, 0⟩,
        ⟨[], 0x400000, [0x6B], false, 0, [0x66], 0x400174, 0x20, 0x400170, 1⟩]⟩ :=
  collectModuleIat_exact Image.twoImports ⟨[]⟩ none Image.twoImports_headers
    Image.twoImports_table

end RoboDbg
