import RoboDbg.Foundation.Runs
import RoboDbg.PointerSlots
import RoboDbg.Protection

/-!
# Code placed in the debuggee

`executeRemote` and `injectDLL` have the system choose free pages, write code or a path
there and start a thread; when a call after the first is refused they free the pages
again. What was placed stays as it is whatever is placed or fails to be placed later, and
the functions that read the memory of the debuggee find it.
-/

namespace RoboDbg

open Loops Runs Tilings Segments

variable {b : Build}

def MEM_FREE : DWORD := 0x10000
def MEM_PRIVATE : DWORD := 0x20000
def PAGE_READWRITE : DWORD := 0x04
def PAGE_EXECUTE_READWRITE : DWORD := 0x40

/-! ## Allocating pages -/

namespace Page

def free : Page b := ⟨0, MEM_FREE, PAGE_NOACCESS, 0⟩

/-- One of the protections that let `WriteProcessMemory` write to the page. -/
def Writable (page : Page b) : Prop :=
  page.State = MEM_COMMIT ∧ page.Protect &&& PAGE_GUARD = 0 ∧ page.Protect &&& 0xCC ≠ 0

instance (page : Page b) : Decidable page.Writable := inferInstanceAs (Decidable (_ ∧ _))

end Page

theorem Page.free_state : (Page.free : Page b).State ≠ MEM_COMMIT := by
  change MEM_FREE ≠ MEM_COMMIT
  decide

namespace PageTable

def pagesFor (size : ℕ) : ℕ := (size + 0xFFF) / 0x1000

def blockPage (i : ℕ) (flProtect : DWORD) : Page b :=
  ⟨address b i, MEM_COMMIT, flProtect, MEM_PRIVATE⟩

/-- The pages from `i` to `k` are committed, with zeroes in them, and can have every
protection. -/
def commit (t : PageTable b) (i k : ℕ) (flProtect : DWORD) : PageTable b where
  page p := if i ≤ p ∧ p < k then blockPage i flProtect else t.page p
  bytes a := if i ≤ pageOf a ∧ pageOf a < k then 0 else t.bytes a
  first := t.first
  limit := t.limit
  nonempty := t.nonempty
  fits := t.fits
  grants p x := if i ≤ p ∧ p < k then some x else t.grants p x
  settled p x y h := by
    split_ifs at h ⊢
    · rfl
    · exact t.settled p x y h
  kept p h := by
    split_ifs at h ⊢
    · rfl
    · exact t.kept p h

/-- The block that the system chooses begins at page `i`. -/
def VirtualAllocEx (t : PageTable b) (i dwSize : ℕ) (flProtect : DWORD) :
    Option (LPVOID b × PageTable b) :=
  let k := i + pagesFor dwSize
  if dwSize ≠ 0 ∧ t.first ≤ i ∧ k ≤ t.limit ∧ ∀ p ∈ List.range' i (k - i), t.page p = .free then
    some (address b i, t.commit i k flProtect)
  else none

/-- `VirtualFreeEx` with `MEM_RELEASE`. -/
def VirtualFreeEx (t : PageTable b) (lpAddress : LPVOID b) : PageTable b :=
  { t with
    page := fun p =>
      if p < t.limit ∧ t.page p ≠ .free ∧ (t.page p).AllocationBase = lpAddress then .free
      else t.page p
    kept := fun p h => by
      split_ifs at h ⊢
      · exact absurd h Page.free_state
      · exact t.kept p h }

/-- The whole range is written, or nothing is. -/
def WriteProcessMemory (t : PageTable b) (a : LPVOID b) (xs : List BYTE) : Option (PageTable b) :=
  if ∀ k ∈ List.range xs.length, (t.page (pageOf (a + BitVec.ofNat _ k))).Writable then
    some { t with bytes := (Memory.storeAll .writeMemory a xs t.memory).bytes }
  else none

end PageTable

/-! ## The functions -/

/-- What the system answers to the calls of one function. -/
structure Answers (b : Build) where
  /-- The page at which a new block begins. -/
  place : ℕ
  allocates : Bool
  writes : Bool
  starts : Bool
  frees : Bool
  /-- `GetProcAddress(GetModuleHandle("kernel32.dll"), "LoadLibraryA")`. -/
  loadLibraryA : LPVOID b

structure RemoteThread (b : Build) where
  lpStartAddress : LPVOID b
  lpParameter : LPVOID b
deriving DecidableEq

/-- What a call that succeeded has placed, and the thread it has started. -/
structure Injection (b : Build) where
  page : ℕ
  contents : List BYTE
  flProtect : DWORD
  thread : RemoteThread b

structure Remote (b : Build) where
  table : PageTable b
  threads : List (RemoteThread b)
  injected : List (Injection b)
  /-- How often the handle to the process was closed. -/
  closed : ℕ

namespace Remote

def virtualAllocEx (ans : Answers b) (dwSize : ℕ) (flProtect : DWORD) (s : Remote b) :
    Option (LPVOID b × Remote b) :=
  if ans.allocates then
    (s.table.VirtualAllocEx ans.place dwSize flProtect).map (fun r => (r.1, { s with table := r.2 }))
  else none

def writeProcessMemory (ans : Answers b) (a : LPVOID b) (xs : List BYTE) (s : Remote b) :
    Option (Remote b) :=
  if ans.writes then (s.table.WriteProcessMemory a xs).map (fun t => { s with table := t })
  else none

def virtualFreeEx (ans : Answers b) (a : LPVOID b) (s : Remote b) : Remote b :=
  if ans.frees then { s with table := s.table.VirtualFreeEx a } else s

def started (x : Injection b) (s : Remote b) : Remote b :=
  { s with threads := s.threads ++ [x.thread], injected := s.injected ++ [x] }

def closeHandle (s : Remote b) : Remote b := { s with closed := s.closed + 1 }

def executeRemote (shellcode : List BYTE) (ans : Answers b) (s : Remote b) : Remote b × Bool :=
  if shellcode.isEmpty then (s, false)
  else
    match s.virtualAllocEx ans shellcode.length PAGE_EXECUTE_READWRITE with
    | none => (s, false)
    | some (remoteMem, s) =>
      match s.writeProcessMemory ans remoteMem shellcode with
      | none => (s.virtualFreeEx ans remoteMem, false)
      | some s =>
        if !ans.starts then (s.virtualFreeEx ans remoteMem, false)
        else
          (s.started ⟨ans.place, shellcode, PAGE_EXECUTE_READWRITE, ⟨remoteMem, 0⟩⟩, true)

/-- `Util::injectDLL` with the address that it returns. -/
def injectDLL (hProcess : HANDLE) (dllPath : Text) (ans : Answers b) (s : Remote b) :
    Remote b × LPVOID b :=
  if hProcess = 0 then (s, 0)
  else
    let path := dllPath ++ [0]
    match s.virtualAllocEx ans path.length PAGE_READWRITE with
    | none => (s.closeHandle, 0)
    | some (pDllPath, s) =>
      match s.writeProcessMemory ans pDllPath path with
      | none => ((s.virtualFreeEx ans pDllPath).closeHandle, 0)
      | some s =>
        if ans.loadLibraryA = 0 then ((s.virtualFreeEx ans pDllPath).closeHandle, 0)
        else if !ans.starts then ((s.virtualFreeEx ans pDllPath).closeHandle, 0)
        else
          (s.started ⟨ans.place, path, PAGE_READWRITE, ⟨ans.loadLibraryA, pDllPath⟩⟩, pDllPath)

/-- `hideDebugger`; `none` when `NtQueryInformationProcess` fails. -/
def hideDebugger (PebBaseAddress : Option (LPVOID b)) (ans : Answers b) (s : Remote b) :
    Remote b × Bool :=
  match PebBaseAddress with
  | none => (s, false)
  | some peb =>
    match s.writeProcessMemory ans (peb + 2) [0] with
    | none => (s, false)
    | some s => (s, true)

end Remote

/-! ## Blocks -/

namespace PageTable

/-- Every page that is not free belongs to an allocation, and so does the page that the
allocation begins with. -/
def WellAllocated (t : PageTable b) : Prop :=
  ∀ p < t.limit, t.page p ≠ .free → ∃ q < t.limit, t.page q ≠ .free ∧
    (t.page q).AllocationBase = address b q ∧ (t.page p).AllocationBase = address b q

/-- The pages from `i` to `k` are one allocation, and hold these bytes at the start. -/
structure Block (t : PageTable b) (i k : ℕ) (flProtect : DWORD) (contents : List BYTE) :
    Prop where
  first : t.first ≤ i
  lt : i < k
  limit : k ≤ t.limit
  fits : contents.length ≤ (k - i) * 0x1000
  page : ∀ p, i ≤ p → p < k → t.page p = blockPage i flProtect
  only : ∀ p < t.limit, t.page p ≠ .free → (t.page p).AllocationBase = address b i → i ≤ p ∧ p < k
  contents : t.memory.view (address b i) contents.length = contents

theorem blockPage_ne_free (i : ℕ) (flProtect : DWORD) :
    (blockPage i flProtect : Page b) ≠ .free := by
  intro h
  have hstate : MEM_COMMIT = MEM_FREE := congrArg Page.State h
  revert hstate
  decide

theorem address_inj {t : PageTable b} {i j : ℕ} (hi : i ≤ t.limit) (hj : j ≤ t.limit)
    (h : address b i = address b j) : i = j := by
  have hval := congrArg BitVec.toNat h
  rw [t.address_toNat hi, t.address_toNat hj] at hval
  omega

theorem pageOf_add {t : PageTable b} {i k j : ℕ} (hk : k ≤ t.limit) (hj : j < (k - i) * 0x1000) :
    i ≤ pageOf (address b i + BitVec.ofNat _ j) ∧ pageOf (address b i + BitVec.ofNat _ j) < k := by
  have hend : i * 0x1000 + j < k * 0x1000 := by omega
  have hi : i ≤ t.limit := by omega
  have hle : k * 0x1000 ≤ t.limit * 0x1000 := Nat.mul_le_mul_right _ hk
  have hsum : i * 0x1000 + j < 2 ^ b.bits := (hend.trans_le hle).trans t.fits
  have hsmall : j < 2 ^ b.bits := (Nat.le_add_left j _).trans_lt hsum
  have hval : (address b i + BitVec.ofNat _ j).toNat = i * 0x1000 + j := by
    rw [BitVec.toNat_add, t.address_toNat hi, BitVec.toNat_ofNat,
      Nat.mod_eq_of_lt hsmall, Nat.mod_eq_of_lt hsum]
  unfold pageOf
  rw [hval]
  omega

namespace Block

variable {t t' : PageTable b} {i k : ℕ} {flProtect : DWORD} {contents : List BYTE}

theorem page_ne_free (h : t.Block i k flProtect contents) {p : ℕ} (hi : i ≤ p) (hk : p < k) :
    t.page p ≠ .free := by
  rw [h.page p hi hk]
  exact blockPage_ne_free i flProtect

/-- A table in which the pages of the block and the bytes in them are the same, and which
puts no other page into its allocation. -/
theorem congr (h : t.Block i k flProtect contents) (hfirst : t'.first = t.first)
    (hlimit : t'.limit = t.limit) (hpage : ∀ p, i ≤ p → p < k → t'.page p = t.page p)
    (honly : ∀ p < t.limit, t'.page p ≠ .free → (t'.page p).AllocationBase = address b i →
      i ≤ p ∧ p < k)
    (hbytes : ∀ a, i ≤ pageOf a → pageOf a < k → t'.bytes a = t.bytes a) :
    t'.Block i k flProtect contents where
  first := hfirst ▸ h.first
  lt := h.lt
  limit := hlimit ▸ h.limit
  fits := h.fits
  page p hi hk := (hpage p hi hk).trans (h.page p hi hk)
  only p hp := honly p (hlimit ▸ hp)
  contents := by
    refine (Memory.view_congr (fun j hj => ?_)).trans h.contents
    obtain ⟨hlow, hhigh⟩ := pageOf_add (t := t) h.limit (hj.trans_le h.fits)
    exact hbytes _ hlow hhigh

/-- The region that the functions on memory show of a block is the block. -/
theorem around (h : t.Block i k flProtect contents) : t.Around (address b i) i k := by
  have hi : i ≤ t.limit := h.lt.le.trans h.limit
  have hbase : ∀ p < t.limit, t.page p = t.page i → i ≤ p ∧ p < k := by
    intro p hp heq
    refine h.only p hp ?_ ?_
    · rw [heq]
      exact h.page_ne_free le_rfl h.lt
    · rw [heq, h.page i le_rfl h.lt]
      rfl
  refine ⟨h.first, h.limit, ?_, ?_, fun p hp hpk => ?_, fun hlow heq => ?_, fun hhigh heq => ?_⟩
  · rw [t.pageOf_address hi]
  · rw [t.pageOf_address hi]
    exact h.lt
  · rw [h.page p hp hpk, h.page i le_rfl h.lt]
  · have hin := hbase (i - 1) (by omega) heq
    omega
  · exact absurd (hbase k hhigh heq).2 (lt_irrefl k)

theorem apart {j l : ℕ} {flProtect' : DWORD} {contents' : List BYTE}
    (h : t.Block i k flProtect contents) (h' : t.Block j l flProtect' contents') (hne : i ≠ j)
    {p : ℕ} (hi : i ≤ p) (hk : p < k) : ¬ (j ≤ p ∧ p < l) := by
  rintro ⟨hj, hl⟩
  have hsame : (blockPage i flProtect : Page b) = blockPage j flProtect' :=
    (h.page p hi hk).symm.trans (h'.page p hj hl)
  exact hne (address_inj (t := t) (h.lt.le.trans h.limit) (h'.lt.le.trans h'.limit)
    (congrArg Page.AllocationBase hsame))

end Block

/-! ### Allocating -/

structure FreeRange (t : PageTable b) (i k : ℕ) : Prop where
  first : t.first ≤ i
  lt : i < k
  limit : k ≤ t.limit
  free : ∀ p, i ≤ p → p < k → t.page p = .free

theorem VirtualAllocEx_eq_some {t t' : PageTable b} {i size : ℕ} {flProtect : DWORD}
    {base : LPVOID b} (h : t.VirtualAllocEx i size flProtect = some (base, t')) :
    t.FreeRange i (i + pagesFor size) ∧ size ≤ (i + pagesFor size - i) * 0x1000 ∧
      base = address b i ∧ t' = t.commit i (i + pagesFor size) flProtect := by
  simp only [VirtualAllocEx] at h
  split_ifs at h with hcan
  obtain ⟨hsize, hfirst, hlimit, hfree⟩ := hcan
  obtain ⟨rfl, rfl⟩ := Prod.mk.inj (Option.some.inj h)
  have hpages : 0 < pagesFor size := by
    unfold pagesFor
    omega
  refine ⟨⟨hfirst, by omega, hlimit, fun p hp hpk => hfree p ?_⟩, ?_, rfl, rfl⟩
  · exact List.mem_range'_1.mpr ⟨hp, by omega⟩
  · rw [Nat.add_sub_cancel_left]
    unfold pagesFor
    omega

section Commit

variable {t : PageTable b} {i k : ℕ}

theorem commit_page_in (t : PageTable b) (flProtect : DWORD) {p : ℕ} (hi : i ≤ p) (hk : p < k) :
    (t.commit i k flProtect).page p = blockPage i flProtect := if_pos ⟨hi, hk⟩

theorem commit_page_out (t : PageTable b) (flProtect : DWORD) {p : ℕ} (h : ¬ (i ≤ p ∧ p < k)) :
    (t.commit i k flProtect).page p = t.page p := if_neg h

variable (hfree : t.FreeRange i k) (flProtect : DWORD)
include hfree

theorem FreeRange.base_ne (hwell : t.WellAllocated) {p : ℕ} (hp : p < t.limit)
    (hne : t.page p ≠ .free) : (t.page p).AllocationBase ≠ address b i := by
  intro hbase
  obtain ⟨q, hq, hqne, -, hpq⟩ := hwell p hp hne
  obtain rfl : i = q :=
    address_inj (t := t) (hfree.lt.le.trans hfree.limit) hq.le (hbase.symm.trans hpq)
  exact hqne (hfree.free i le_rfl hfree.lt)

theorem commit_wellAllocated (hwell : t.WellAllocated) :
    (t.commit i k flProtect).WellAllocated := by
  have hfirst := t.commit_page_in flProtect le_rfl hfree.lt
  intro p hp hne
  by_cases hin : i ≤ p ∧ p < k
  · refine ⟨i, hfree.lt.trans_le hfree.limit, ?_, ?_, ?_⟩
    · rw [hfirst]
      exact blockPage_ne_free i flProtect
    · rw [hfirst]
      rfl
    · rw [t.commit_page_in flProtect hin.1 hin.2]
      rfl
  · rw [t.commit_page_out flProtect hin] at hne ⊢
    obtain ⟨q, hq, hqne, hqbase, hpbase⟩ := hwell p hp hne
    have hqout : ¬ (i ≤ q ∧ q < k) := fun hc => hqne (hfree.free q hc.1 hc.2)
    rw [← t.commit_page_out flProtect hqout] at hqne hqbase
    exact ⟨q, hq, hqne, hqbase, hpbase⟩

theorem commit_block (hwell : t.WellAllocated) :
    (t.commit i k flProtect).Block i k flProtect [] where
  first := hfree.first
  lt := hfree.lt
  limit := hfree.limit
  fits := Nat.zero_le _
  page p hi hk := t.commit_page_in flProtect hi hk
  only p hp hne hbase := by
    by_contra hout
    rw [t.commit_page_out flProtect hout] at hne hbase
    exact hfree.base_ne hwell hp hne hbase
  contents := rfl

variable {j l : ℕ} {flProtect' : DWORD} {contents : List BYTE}

theorem Block.page_ne_of_free (h : t.Block j l flProtect' contents) : j ≠ i := by
  rintro rfl
  exact h.page_ne_free le_rfl h.lt (hfree.free j le_rfl hfree.lt)

theorem Block.commit (h : t.Block j l flProtect' contents) :
    (t.commit i k flProtect).Block j l flProtect' contents := by
  have hout : ∀ p, j ≤ p → p < l → ¬ (i ≤ p ∧ p < k) :=
    fun p hj hl hc => h.page_ne_free hj hl (hfree.free p hc.1 hc.2)
  refine h.congr rfl rfl (fun p hj hl => t.commit_page_out flProtect (hout p hj hl))
    (fun p hp hne hbase => ?_) (fun a hj hl => if_neg (hout _ hj hl))
  by_cases hin : i ≤ p ∧ p < k
  · rw [t.commit_page_in flProtect hin.1 hin.2] at hbase
    exact absurd (address_inj (t := t) (hfree.lt.le.trans hfree.limit) (h.lt.le.trans h.limit) hbase)
      (h.page_ne_of_free hfree).symm
  · rw [t.commit_page_out flProtect hin] at hne hbase
    exact h.only p hp hne hbase

end Commit

/-! ### Releasing and writing -/

section Release

variable {t : PageTable b} {i k : ℕ} {flProtect : DWORD} {contents : List BYTE}

theorem VirtualFreeEx_page_of_ne {base : LPVOID b} {p : ℕ}
    (h : t.page p ≠ .free → (t.page p).AllocationBase ≠ base) :
    (t.VirtualFreeEx base).page p = t.page p := if_neg (fun hc => h hc.2.1 hc.2.2)

theorem VirtualFreeEx_page (t : PageTable b) (base : LPVOID b) (p : ℕ) :
    (t.VirtualFreeEx base).page p = .free ∨ (t.VirtualFreeEx base).page p = t.page p := by
  simp only [VirtualFreeEx]
  split_ifs
  · exact Or.inl rfl
  · exact Or.inr rfl

theorem VirtualFreeEx_wellAllocated (hwell : t.WellAllocated) (base : LPVOID b) :
    (t.VirtualFreeEx base).WellAllocated := by
  intro p hp hne
  have hsame := (t.VirtualFreeEx_page base p).resolve_left hne
  rw [hsame] at hne ⊢
  obtain ⟨q, hq, hqne, hqbase, hpbase⟩ := hwell p hp hne
  have hkept : (t.page p).AllocationBase ≠ base := by
    intro hbase
    have hfreed : (t.VirtualFreeEx base).page p = .free := if_pos ⟨hp, hne, hbase⟩
    exact hne (hsame.symm.trans hfreed)
  have hqsame : (t.VirtualFreeEx base).page q = t.page q :=
    VirtualFreeEx_page_of_ne (fun _ => by rwa [hqbase, ← hpbase])
  rw [← hqsame] at hqne hqbase
  exact ⟨q, hq, hqne, hqbase, hpbase⟩

theorem Block.release (h : t.Block i k flProtect contents) {base : LPVOID b}
    (hne : base ≠ address b i) : (t.VirtualFreeEx base).Block i k flProtect contents := by
  refine h.congr rfl rfl (fun p hi hk => VirtualFreeEx_page_of_ne (fun _ => ?_))
    (fun p hp hfree hbase => ?_) (fun _ _ _ => rfl)
  · rw [h.page p hi hk]
    exact hne.symm
  · have hsame := (t.VirtualFreeEx_page base p).resolve_left hfree
    rw [hsame] at hfree hbase
    exact h.only p hp hfree hbase

theorem Block.release_page (h : t.Block i k flProtect contents) (p : ℕ) :
    (t.VirtualFreeEx (address b i)).page p = if i ≤ p ∧ p < k then .free else t.page p := by
  have hk := h.limit
  split_ifs with hin
  · have hbase : (t.page p).AllocationBase = address b i := by
      rw [h.page p hin.1 hin.2]
      rfl
    exact if_pos ⟨hin.2.trans_le hk, h.page_ne_free hin.1 hin.2, hbase⟩
  · exact if_neg (fun hc => hin (h.only p hc.1 hc.2.1 hc.2.2))

theorem WriteProcessMemory_eq_some {t t' : PageTable b} {a : LPVOID b} {xs : List BYTE}
    (h : t.WriteProcessMemory a xs = some t') :
    t' = { t with bytes := (Memory.storeAll .writeMemory a xs t.memory).bytes } := by
  unfold WriteProcessMemory at h
  split_ifs at h
  exact (Option.some.inj h).symm

theorem WriteProcessMemory_frame {t t' : PageTable b} {a : LPVOID b} {xs : List BYTE}
    (h : t.WriteProcessMemory a xs = some t') :
    t'.first = t.first ∧ t'.page = t.page ∧ (t.WellAllocated → t'.WellAllocated) ∧
      ∀ x, (∀ j < xs.length, x ≠ a + BitVec.ofNat _ j) → t'.bytes x = t.bytes x := by
  obtain rfl := WriteProcessMemory_eq_some h
  exact ⟨rfl, rfl, id, fun x hout => Memory.storeAll_bytes_of_ne .writeMemory hout t.memory⟩

theorem Block.write (h : t.Block i k flProtect contents) {t' : PageTable b} {xs : List BYTE}
    (hfits : xs.length ≤ (k - i) * 0x1000)
    (hw : t.WriteProcessMemory (address b i) xs = some t') : t'.Block i k flProtect xs := by
  obtain rfl := WriteProcessMemory_eq_some hw
  have hle : (k - i) * 0x1000 ≤ t.limit * 0x1000 :=
    Nat.mul_le_mul_right _ ((Nat.sub_le k i).trans h.limit)
  have hlength : xs.length < 2 ^ b.bits := (hfits.trans hle).trans_lt t.fits
  exact ⟨h.first, h.lt, h.limit, hfits, h.page, h.only,
    Memory.view_storeAll .writeMemory (address b i) hlength t.memory⟩

theorem Block.written (h : t.Block i k flProtect contents) {t' : PageTable b} {a : LPVOID b}
    {xs : List BYTE}
    (hout : ∀ j < xs.length, ¬ (i ≤ pageOf (a + BitVec.ofNat _ j) ∧
      pageOf (a + BitVec.ofNat _ j) < k))
    (hw : t.WriteProcessMemory a xs = some t') : t'.Block i k flProtect contents := by
  obtain rfl := WriteProcessMemory_eq_some hw
  refine h.congr rfl rfl (fun _ _ _ => rfl) h.only (fun x hi hk => ?_)
  apply Memory.storeAll_bytes_of_ne
  rintro j hj rfl
  exact hout j hj ⟨hi, hk⟩

end Release
end PageTable
end RoboDbg
