import RoboDbg.Foundation.Loops
import RoboDbg.PeImage

/-!
# The imports plugin

`collectModuleIat` walks the import table of a module that is mapped in the
debuggee and appends one record for each import. All it knows of the module it
reads from the debuggee's memory: structures through the typed `readMemory` and
strings in chunks through `readCString`.
-/

namespace RoboDbg

open Loops

variable {b : Build}

def IMAGE_ORDINAL_FLAG32 : ULONGLONG := 0x80000000
def IMAGE_ORDINAL_FLAG64 : ULONGLONG := 0x8000000000000000

/-! ## The plugin -/

structure IatRecord (b : Build) where
  modulePath : Text
  moduleBase : HMODULE b
  dllName : Text
  byOrdinal : Bool
  ordinal : WORD
  funcName : Text
  iatSlot : DWORD_PTR b
  target : DWORD_PTR b
  iatBase : DWORD_PTR b
  index : SIZE_T b
deriving DecidableEq

structure NtInfo where
  is64 : Bool
  sizeOfImage : DWORD
  importDir : ImageDataDirectory
deriving DecidableEq

structure Imports (b : Build) where
  entries_ : List (IatRecord b)
deriving DecidableEq

namespace Imports

def spanLeftInModule (base : HMODULE b) (va : DWORD_PTR b) (sizeOfImage : DWORD) : SIZE_T b :=
  if va < base then 0
  else
    let off := va - base
    if sizeOfImage.setWidth b.bits ≤ off then 0 else sizeOfImage.setWidth b.bits - off

def rvaToVa (base : HMODULE b) (rva : DWORD) : LPVOID b := base + rva.setWidth b.bits

/-- What `readCString` does with a chunk that was read: the part up to a NUL ends the
string. -/
def scanChunk (r : Text × SIZE_T b) (toRead : SIZE_T b) (chunk : List BYTE) :
    Pass (Text × SIZE_T b) :=
  let s := r.1
  let off := r.2
  match chunk.findIdx? (· = 0) with
  | some i => .done (s ++ chunk.take i, off)
  | none => .again (s ++ chunk, off + toRead)

/-- One pass of the loop of `readCString`, on `s` and `off`; `read` is `ReadProcessMemory`. -/
def chunkPassWith (read : LPVOID b → ℕ → Option (List BYTE)) (addr : DWORD_PTR b)
    (maxLen : SIZE_T b) (r : Text × SIZE_T b) : Pass (Text × SIZE_T b) :=
  let off := r.2
  if off < maxLen then
    -- `std::min`
    let toRead := if maxLen - off < 256 then maxLen - off else 256
    match read (addr + off) toRead.toNat with
    | none => .done r
    | some chunk => scanChunk r toRead chunk
  else .done r

def chunkPass (m : Memory b) := chunkPassWith m.readProcessMemory

/-- `none` while the loop needs more than `n` passes. -/
def readCString (n : ℕ) (m : Memory b) (addr : DWORD_PTR b) (maxLen : SIZE_T b) : Option Text :=
  (forever (fun r => some (chunkPass m addr maxLen r)) n ([], 0)).map Prod.fst

/-- `none` stands for the result `false`. -/
def getNtInfo (m : Memory b) (base : HMODULE b) : Option NtInfo :=
  let dos := m.readMemory ImageDosHeader base
  if dos.e_magic ≠ IMAGE_DOS_SIGNATURE then none
  else
    -- a `LONG`: the sum is taken after sign extension
    let nt := base + dos.e_lfanew.signExtend b.bits
    let sig := m.readMemory DWORD nt
    if sig ≠ IMAGE_NT_SIGNATURE then none
    else
      let magic := m.readMemory WORD (nt + 24)
      let out : Option NtInfo :=
        if magic = IMAGE_NT_OPTIONAL_HDR64_MAGIC then
          let nth := m.readMemory ImageNtHeaders64 nt
          some ⟨true, nth.SizeOfImage, nth.DataDirectory IMAGE_DIRECTORY_ENTRY_IMPORT⟩
        else if magic = IMAGE_NT_OPTIONAL_HDR32_MAGIC then
          let nth := m.readMemory ImageNtHeaders32 nt
          some ⟨false, nth.SizeOfImage, nth.DataDirectory IMAGE_DIRECTORY_ENTRY_IMPORT⟩
        else none
      out.filter (fun out => out.importDir.VirtualAddress ≠ 0 ∧ out.importDir.Size ≠ 0)

/-! ## Collecting -/

def psize (is64 : Bool) : ℕ := if is64 then 8 else 4

def ordFlag (is64 : Bool) : ULONGLONG :=
  if is64 then IMAGE_ORDINAL_FLAG64 else IMAGE_ORDINAL_FLAG32

/-- The value of a thunk or of a slot of the import address table. -/
def readThunk (m : Memory b) (is64 : Bool) (address : LPVOID b) : ULONGLONG :=
  if is64 then m.readMemory ULONGLONG address else (m.readMemory DWORD address).setWidth 64

/-- What the loops of `collectModuleIat` read and do not change. -/
structure Module (b : Build) where
  memory : Memory b
  base : HMODULE b
  /-- The C string, null in a call that names no path. -/
  modulePath : Option Text
  ni : NtInfo

/-! The loops below get their strings from `read`, which for the plugin is `readCString`. -/

abbrev NameReader (b : Build) := DWORD_PTR b → SIZE_T b → Option Text

/-- One pass of the loop over the thunks of a descriptor, on `i` and `entries_`. -/
def thunkPassWith (read : NameReader b) (M : Module b) (dllName : Text) (oft ft : LPVOID b)
    (r : SIZE_T b × List (IatRecord b)) : Option (Pass (SIZE_T b × List (IatRecord b))) :=
  let i := r.1
  let size := BitVec.ofNat b.bits (psize M.ni.is64)
  let thunkVal := readThunk M.memory M.ni.is64 (oft + i * size)
  if thunkVal = 0 then some (.done r)
  else
    let slot := ft + i * size
    let target := readThunk M.memory M.ni.is64 slot
    let record : IatRecord b := {
      modulePath := M.modulePath.getD []
      moduleBase := M.base
      dllName := dllName
      byOrdinal := false
      ordinal := 0
      funcName := []
      iatSlot := slot
      target := target.setWidth b.bits
      iatBase := ft
      index := i }
    if thunkVal &&& ordFlag M.ni.is64 ≠ 0 then
      let record := { record with byOrdinal := true, ordinal := thunkVal.setWidth 16 }
      some (.again (i + 1, r.2 ++ [record]))
    else
      let ibnRva : DWORD := (thunkVal &&& ~~~ordFlag M.ni.is64).setWidth 32
      let nameVA := rvaToVa M.base ibnRva + 2
      let nameMax := spanLeftInModule M.base nameVA M.ni.sizeOfImage
      (read nameVA nameMax).map (fun name =>
        let funcName := if name.isEmpty then literal "<name-read-failed>" else name
        .again (i + 1, r.2 ++ [{ record with funcName := funcName }]))

def readDllNameWith (read : NameReader b) (M : Module b) (imp : ImageImportDescriptor) :
    Option Text :=
  if imp.Name ≠ 0 then
    let dllVA := rvaToVa M.base imp.Name
    let maxLen := spanLeftInModule M.base dllVA M.ni.sizeOfImage
    read dllVA maxLen
  else some (literal "<no-name>")

/-- One pass of the loop over the descriptors, on `idx` and `entries_`. -/
def descriptorPassWith (read : NameReader b) (n : ℕ) (M : Module b)
    (r : DWORD × List (IatRecord b)) : Option (Pass (DWORD × List (IatRecord b))) :=
  let idx := r.1
  let impBase := rvaToVa M.base M.ni.importDir.VirtualAddress
  let imp := M.memory.readMemory ImageImportDescriptor (impBase + idx.setWidth b.bits * 20)
  if imp.Name = 0 ∧ imp.FirstThunk = 0 ∧ imp.OriginalFirstThunk = 0 then some (.done r)
  else
    (readDllNameWith read M imp).bind (fun dllName =>
      let oftRva := if imp.OriginalFirstThunk ≠ 0 then imp.OriginalFirstThunk else imp.FirstThunk
      let ftRva := imp.FirstThunk
      if M.ni.sizeOfImage ≤ oftRva ∨ M.ni.sizeOfImage ≤ ftRva then some (.again (idx + 1, r.2))
      else
        let oft := rvaToVa M.base oftRva
        let ft := rvaToVa M.base ftRva
        (forever (thunkPassWith read M dllName oft ft) n (0, r.2)).map
          (fun s => .again (idx + 1, s.2)))

/-- Every loop may take `n` passes; `none` while one of them needs more. -/
def collectModuleIatWith (read : NameReader b) (n : ℕ) (m : Memory b) (imports : Imports b)
    (base : HMODULE b) (modulePath : Option Text) : Option (Imports b) :=
  match getNtInfo m base with
  | none => some imports
  | some ni =>
    (forever (descriptorPassWith read n ⟨m, base, modulePath, ni⟩) n (0, imports.entries_)).map
      (fun r => { imports with entries_ := r.2 })

def thunkPass (n : ℕ) (M : Module b) :=
  thunkPassWith (readCString n M.memory) M

def readDllName (n : ℕ) (M : Module b) :=
  readDllNameWith (readCString n M.memory) M

def descriptorPass (n : ℕ) (M : Module b) :=
  descriptorPassWith (readCString n M.memory) n M

def collectModuleIat (n : ℕ) (m : Memory b) :=
  collectModuleIatWith (readCString n m) n m

end Imports
end RoboDbg
