import RoboDbg.Win32

/-!
# Images in the debuggee's memory

The headers of a PE image as the engine and its plugins read them: plain
structures whose members lie at fixed offsets, the lowest byte first.
-/

namespace RoboDbg

variable {b : Build}

def littleEndian : List BYTE → ℕ
  | [] => 0
  | x :: xs => x.toNat + 256 * littleEndian xs

/-- A trivially copyable type: its size and the value that its bytes stand for. -/
class Pod (α : Type) where
  size : ℕ
  ofBytes : List BYTE → α

instance (w : ℕ) : Pod (BitVec w) where
  size := w / 8
  ofBytes xs := BitVec.ofNat w (littleEndian xs)

def member (α : Type) [Pod α] (offset : ℕ) (xs : List BYTE) : α :=
  Pod.ofBytes ((xs.drop offset).take (Pod.size α))

structure ImageDosHeader where
  e_magic : WORD
  e_lfanew : LONG

instance : Pod ImageDosHeader where
  size := 64
  ofBytes xs := ⟨member WORD 0 xs, member LONG 60 xs⟩

structure ImageDataDirectory where
  VirtualAddress : DWORD
  Size : DWORD
deriving DecidableEq

instance : Pod ImageDataDirectory where
  size := 8
  ofBytes xs := ⟨member DWORD 0 xs, member DWORD 4 xs⟩

/-- `IMAGE_NT_HEADERS64` or `IMAGE_NT_HEADERS32`: the members that are used, those of the
optional header among them. -/
structure ImageNtHeaders (is64 : Bool) where
  Signature : DWORD
  AddressOfEntryPoint : DWORD
  SizeOfImage : DWORD
  DataDirectory : Fin 16 → ImageDataDirectory

abbrev ImageNtHeaders64 := ImageNtHeaders true
abbrev ImageNtHeaders32 := ImageNtHeaders false

/-- The two headers differ in front of the directories only. -/
instance (is64 : Bool) : Pod (ImageNtHeaders is64) where
  size := if is64 then 264 else 248
  ofBytes xs :=
    let directories := if is64 then 136 else 120
    ⟨member DWORD 0 xs, member DWORD 40 xs, member DWORD 80 xs,
      fun i => member ImageDataDirectory (directories + 8 * i) xs⟩

structure ImageImportDescriptor where
  OriginalFirstThunk : DWORD
  Name : DWORD
  FirstThunk : DWORD
deriving DecidableEq

instance : Pod ImageImportDescriptor where
  size := 20
  ofBytes xs := ⟨member DWORD 0 xs, member DWORD 12 xs, member DWORD 16 xs⟩

def IMAGE_DOS_SIGNATURE : WORD := 0x5A4D
def IMAGE_NT_SIGNATURE : DWORD := 0x00004550
def IMAGE_NT_OPTIONAL_HDR32_MAGIC : WORD := 0x10B
def IMAGE_NT_OPTIONAL_HDR64_MAGIC : WORD := 0x20B
def IMAGE_DIRECTORY_ENTRY_IMPORT : Fin 16 := 1
/-- The typed `readMemory` of a plugin: a failed read gives `T{}`, all of whose bytes
are zero. -/
def Memory.readMemory (m : Memory b) (α : Type) [Pod α] (address : LPVOID b) : α :=
  Pod.ofBytes
    ((m.readProcessMemory address (Pod.size α)).getD (List.replicate (Pod.size α) 0))

/-- Whether `IMAGE_NT_HEADERS` is the 64-bit one. -/
def Build.is64 : Build → Bool
  | .x86 => false
  | .x64 => true

/-- `0` when the headers cannot be read. -/
def Util.getEntryPoint (m : Memory b) (baseAddress : LPVOID b) : DWORD_PTR b :=
  match m.readProcessMemory baseAddress (Pod.size ImageDosHeader) with
  | none => 0
  | some bytes =>
    let dosHeader : ImageDosHeader := Pod.ofBytes bytes
    if dosHeader.e_magic ≠ IMAGE_DOS_SIGNATURE then 0
    else
      let ntHeadersAddr := baseAddress + dosHeader.e_lfanew.signExtend b.bits
      match m.readProcessMemory ntHeadersAddr (Pod.size (ImageNtHeaders b.is64)) with
      | none => 0
      | some bytes =>
        let ntHeaders : ImageNtHeaders b.is64 := Pod.ofBytes bytes
        if ntHeaders.Signature ≠ IMAGE_NT_SIGNATURE then 0
        else baseAddress + ntHeaders.AddressOfEntryPoint.setWidth b.bits

end RoboDbg
