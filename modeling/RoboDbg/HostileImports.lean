import RoboDbg.ImportTable

/-!
# Import tables that nobody vouches for

The debuggee decides what `collectModuleIat` reads: headers, descriptors, thunks and
names may hold anything. Only unreadable memory stops the two outer loops, through the
zero value that a failed read gives.
-/

namespace RoboDbg

open Loops Imports

variable {b : Build}

namespace Imports

/-! ## Strings -/

theorem toNat_256 : (256 : SIZE_T b).toNat = 256 := by
  cases b <;> rfl

theorem toRead_bounds {off maxLen : SIZE_T b} (h : off < maxLen) :
    let toRead := if maxLen - off < 256 then maxLen - off else 256
    0 < toRead.toNat ∧ off.toNat + toRead.toNat ≤ maxLen.toNat := by
  intro toRead
  have hlt : off.toNat < maxLen.toNat := BitVec.lt_def.mp h
  have hleft : (maxLen - off).toNat = maxLen.toNat - off.toNat :=
    BitVec.toNat_sub_of_le (BitVec.le_of_lt h)
  by_cases hc : maxLen - off < 256
  · have he : toRead = maxLen - off := if_pos hc
    rw [he, hleft]
    omega
  · have he : toRead = 256 := if_neg hc
    rw [BitVec.lt_def, hleft, toNat_256] at hc
    rw [he, toNat_256]
    omega

theorem chunkPass_advances {m : Memory b} {addr : DWORD_PTR b} {maxLen : SIZE_T b}
    {r r' : Text × SIZE_T b} (h : chunkPass m addr maxLen r = .again r') :
    r.2.toNat < r'.2.toNat ∧ r'.2.toNat ≤ maxLen.toNat := by
  by_cases hlt : r.2 < maxLen
  · obtain ⟨hpos, hle⟩ := toRead_bounds hlt
    simp only [chunkPass, chunkPassWith, hlt, if_true, scanChunk] at h
    split at h
    · cases h
    · split at h
      · cases h
      · obtain rfl := Pass.again.inj h
        have hmax := maxLen.isLt
        rw [BitVec.toNat_add_of_lt (by omega)]
        omega
  · simp only [chunkPass, chunkPassWith, hlt, if_false] at h
    cases h

theorem readCString_yields (m : Memory b) (addr : DWORD_PTR b) (maxLen : SIZE_T b) :
    ∃ s, Yields (fun n => readCString n m addr maxLen) s := by
  obtain ⟨r, hend⟩ : ∃ r, Ends (fun _ r => some (chunkPass m addr maxLen r)) ([], 0) r := by
    refine Ends.of_measure (I := fun _ => True) (fun r => maxLen.toNat - r.2.toNat) ?_ trivial
    intro r _
    refine ⟨_, Yields.const _, fun r' h => ⟨trivial, ?_⟩⟩
    have hstep := chunkPass_advances h
    omega
  exact ⟨_, hend.yields.map Prod.fst⟩

theorem readCString_definite {m : Memory b} {addr : DWORD_PTR b} {maxLen : SIZE_T b} {n : ℕ}
    {s : Text} (h : readCString n m addr maxLen = some s) :
    Yields (fun n => readCString n m addr maxLen) s := by
  obtain ⟨r, hr, rfl⟩ := Option.map_eq_some_iff.mp h
  have hend := (Definite.const (fun r => some (chunkPass m addr maxLen r))).ends (n := n) hr
  exact hend.yields.map Prod.fst

/-! ## One thunk -/

namespace Module

variable (M : Module b)

def element (M : Module b) (array : LPVOID b) (i : SIZE_T b) : LPVOID b :=
  array + i * BitVec.ofNat b.bits (psize M.ni.is64)

def thunk (oft : LPVOID b) (i : SIZE_T b) : ULONGLONG :=
  readThunk M.memory M.ni.is64 (M.element oft i)

end Module

section Thunk

variable {M : Module b} {dllName : Text} {oft ft : LPVOID b}

theorem thunkPass_zero {n : ℕ} {i : SIZE_T b} (h : M.thunk oft i = 0)
    (es : List (IatRecord b)) :
    thunkPass n M dllName oft ft (i, es) = some (.done (i, es)) := by
  unfold Module.thunk Module.element at h
  simp only [thunkPass, thunkPassWith, h, if_true]

variable (dllName ft) in
theorem thunkPass_record {i : SIZE_T b} (h : M.thunk oft i ≠ 0) (es : List (IatRecord b)) :
    ∃ r : IatRecord b, r.iatSlot = M.element ft i ∧
      Yields (fun n => thunkPass n M dllName oft ft (i, es)) (.again (i + 1, es ++ [r])) := by
  unfold Module.thunk Module.element at h
  simp only [thunkPass, thunkPassWith, h, if_false]
  split_ifs with hflag
  · exact ⟨_, rfl, Yields.const _⟩
  · obtain ⟨name, hname⟩ := readCString_yields M.memory
      (rvaToVa M.base ((readThunk M.memory M.ni.is64 (oft + i * BitVec.ofNat b.bits
        (psize M.ni.is64)) &&& ~~~ordFlag M.ni.is64).setWidth 32) + 2) _
    exact ⟨_, rfl, hname.map _⟩

theorem thunkPass_done {i : SIZE_T b} (h : M.thunk oft i = 0) (es : List (IatRecord b)) :
    Yields (fun n => thunkPass n M dllName oft ft (i, es)) (.done (i, es)) :=
  ⟨0, fun _ _ => thunkPass_zero h es⟩

theorem thunkPass_cases {i : SIZE_T b} {es : List (IatRecord b)}
    {p : Pass (SIZE_T b × List (IatRecord b))}
    (h : Yields (fun n => thunkPass n M dllName oft ft (i, es)) p) :
    (M.thunk oft i = 0 ∧ p = .done (i, es)) ∨
    (M.thunk oft i ≠ 0 ∧ ∃ r : IatRecord b, r.iatSlot = M.element ft i ∧
      p = .again (i + 1, es ++ [r])) := by
  by_cases hz : M.thunk oft i = 0
  · exact Or.inl ⟨hz, h.unique (thunkPass_done hz es)⟩
  · obtain ⟨r, hr, hrec⟩ := thunkPass_record dllName ft hz es
    exact Or.inr ⟨hz, r, hr, h.unique hrec⟩

theorem thunkPass_definite : Definite (fun n => thunkPass n M dllName oft ft) := by
  rintro n ⟨i, es⟩ p h
  simp only [thunkPass, thunkPassWith] at h ⊢
  split_ifs at h ⊢
  · exact ⟨0, fun _ _ => h⟩
  · exact ⟨0, fun _ _ => h⟩
  · obtain ⟨name, hname, rfl⟩ := Option.map_eq_some_iff.mp h
    exact (readCString_definite hname).map _

end Thunk

/-! ## One descriptor -/

namespace Module

variable (M : Module b)

def descriptor (idx : DWORD) : ImageImportDescriptor :=
  M.memory.readMemory ImageImportDescriptor
    (rvaToVa M.base M.ni.importDir.VirtualAddress + idx.setWidth b.bits * 20)

def Closes (imp : ImageImportDescriptor) : Prop :=
  imp.Name = 0 ∧ imp.FirstThunk = 0 ∧ imp.OriginalFirstThunk = 0

instance (imp : ImageImportDescriptor) : Decidable (Closes imp) :=
  inferInstanceAs (Decidable (_ ∧ _))

def oftRva (imp : ImageImportDescriptor) : DWORD :=
  if imp.OriginalFirstThunk ≠ 0 then imp.OriginalFirstThunk else imp.FirstThunk

/-- One of the two arrays of thunks starts behind the end of the module. -/
def StartsOutside (imp : ImageImportDescriptor) : Prop :=
  M.ni.sizeOfImage ≤ oftRva imp ∨ M.ni.sizeOfImage ≤ imp.FirstThunk

instance (imp : ImageImportDescriptor) : Decidable (M.StartsOutside imp) :=
  inferInstanceAs (Decidable (_ ∨ _))

def thunkLoop (imp : ImageImportDescriptor) (dllName : Text) (n : ℕ)
    (s : SIZE_T b × List (IatRecord b)) : Option (Pass (SIZE_T b × List (IatRecord b))) :=
  thunkPass n M dllName (rvaToVa M.base (oftRva imp)) (rvaToVa M.base imp.FirstThunk) s

end Module

section Descriptor

variable {M : Module b} {idx : DWORD}

theorem readDllName_yields (imp : ImageImportDescriptor) :
    ∃ dllName, Yields (fun n => readDllName n M imp) dllName := by
  unfold readDllName readDllNameWith
  split_ifs
  · exact readCString_yields M.memory (rvaToVa M.base imp.Name) _
  · exact ⟨_, Yields.const _⟩

theorem readDllName_definite {n : ℕ} {imp : ImageImportDescriptor} {dllName : Text}
    (h : readDllName n M imp = some dllName) : Yields (fun n => readDllName n M imp) dllName := by
  unfold readDllName readDllNameWith at h ⊢
  split_ifs at h ⊢
  · exact readCString_definite h
  · exact ⟨0, fun _ _ => h⟩

theorem descriptorPass_eq (hlive : ¬ Module.Closes (M.descriptor idx)) (n : ℕ)
    (es : List (IatRecord b)) :
    descriptorPass n M (idx, es) = (readDllName n M (M.descriptor idx)).bind (fun dllName =>
      if M.StartsOutside (M.descriptor idx) then some (.again (idx + 1, es))
      else
        (forever (M.thunkLoop (M.descriptor idx) dllName n) n (0, es)).map
          (fun s => .again (idx + 1, s.2))) :=
  if_neg hlive

theorem descriptorPass_closes (hclose : Module.Closes (M.descriptor idx)) (n : ℕ)
    (es : List (IatRecord b)) : descriptorPass n M (idx, es) = some (.done (idx, es)) := by
  unfold Module.Closes Module.descriptor at hclose
  simp only [descriptorPass, descriptorPassWith, hclose, and_self, if_true]

theorem descriptorPass_done (hclose : Module.Closes (M.descriptor idx))
    (es : List (IatRecord b)) :
    Yields (fun n => descriptorPass n M (idx, es)) (.done (idx, es)) :=
  ⟨0, fun n _ => descriptorPass_closes hclose n es⟩

theorem descriptorPass_definite : Definite (fun n => descriptorPass n M) := by
  rintro n ⟨idx, es⟩ p h
  by_cases hclose : Module.Closes (M.descriptor idx)
  · simp only [descriptorPass_closes hclose] at h ⊢
    exact ⟨0, fun _ _ => h⟩
  · simp only [descriptorPass_eq hclose] at h ⊢
    obtain ⟨dllName, hname, hrest⟩ := Option.bind_eq_some_iff.mp h
    refine (readDllName_definite hname).bind ?_
    split_ifs at hrest ⊢
    · exact ⟨0, fun _ _ => hrest⟩
    · obtain ⟨s, hs, rfl⟩ := Option.map_eq_some_iff.mp hrest
      exact (thunkPass_definite.ends hs).yields.map _

end Descriptor

/-! ## The walk comes to unreadable memory -/

/-- A failed read gives a value of zero bytes. -/
theorem readMemory_of_unreadable {α : Type} [Pod α] {m : Memory b} {a : LPVOID b} {k : ℕ}
    (hk : k < Pod.size α) (h : m.readable (a + BitVec.ofNat _ k) = false) :
    m.readMemory α a = Pod.ofBytes (List.replicate (Pod.size α) 0) := by
  have hread : m.readProcessMemory a (Pod.size α) = none := by
    apply if_neg
    intro hall
    have hat := List.all_eq_true.mp hall k (List.mem_range.mpr hk)
    rw [h] at hat
    cases hat
  rw [Memory.readMemory, hread]
  rfl

theorem readThunk_of_unreadable {m : Memory b} {is64 : Bool} {a : LPVOID b} {k : ℕ}
    (hk : k < psize is64) (h : m.readable (a + BitVec.ofNat _ k) = false) :
    readThunk m is64 a = 0 := by
  cases is64 with
  | true =>
    have hread := readMemory_of_unreadable (α := ULONGLONG) hk h
    simp only [readThunk, if_true, hread]
    rfl
  | false =>
    have hread := readMemory_of_unreadable (α := DWORD) hk h
    simp only [readThunk, Bool.false_eq_true, if_false, hread]
    rfl

section Terminates

variable {M : Module .x64}

/-- The elements of an array of pointers lie without a gap, so one of them covers an
unreadable address. -/
theorem thunk_eq_zero (oft : LPVOID .x64) {u : LPVOID .x64} (hu : M.memory.readable u = false) :
    M.thunk oft (BitVec.ofNat _ ((u - oft).toNat / psize M.ni.is64)) = 0 := by
  have hpos : 0 < psize M.ni.is64 := by
    cases M.ni.is64 <;> decide
  have hcover : M.element oft (BitVec.ofNat _ ((u - oft).toNat / psize M.ni.is64)) +
      BitVec.ofNat _ ((u - oft).toNat % psize M.ni.is64) = u := by
    rw [Module.element, ← BitVec.ofNat_mul, BitVec.add_assoc, ← BitVec.ofNat_add, Nat.mul_comm,
      Nat.div_add_mod, BitVec.ofNat_toNat, BitVec.setWidth_eq, BitVec.add_comm,
      BitVec.sub_add_cancel]
  apply readThunk_of_unreadable (Nat.mod_lt _ hpos)
  rw [hcover]
  exact hu

theorem thunks_terminate {u : LPVOID .x64} (hu : M.memory.readable u = false) (dllName : Text)
    (oft ft : LPVOID .x64) (es : List (IatRecord .x64)) :
    ∃ s, Ends (fun n => thunkPass n M dllName oft ft) (0, es) s := by
  let last := (u - oft).toNat / psize M.ni.is64
  have hlast : last < 2 ^ 64 := (Nat.div_le_self _ _).trans_lt (u - oft).isLt
  refine Ends.of_measure (I := fun s => s.1.toNat ≤ last) (fun s => last - s.1.toNat) ?_
    (Nat.zero_le _)
  rintro ⟨i, es⟩ hi
  dsimp only at hi
  by_cases hz : M.thunk oft i = 0
  · exact ⟨.done (i, es), thunkPass_done hz es, fun s h => by cases h⟩
  · obtain ⟨r, -, hpass⟩ := thunkPass_record dllName ft hz es
    refine ⟨_, hpass, fun s h => ?_⟩
    obtain rfl := Pass.again.inj h
    have hne : i.toNat ≠ last := by
      rintro he
      have hi' : i = BitVec.ofNat _ last := by
        rw [← he, BitVec.ofNat_toNat, BitVec.setWidth_eq]
      exact hz (hi' ▸ thunk_eq_zero oft hu)
    have hnext : (i + 1).toNat = i.toNat + 1 := BitVec.toNat_add_of_lt (by
      change i.toNat + 1 < 2 ^ 64
      omega)
    dsimp only
    omega

theorem descriptor_closes {n : ℕ} (hn : n < 20 * 2 ^ 32)
    (hu : M.memory.readable
      (rvaToVa M.base M.ni.importDir.VirtualAddress + BitVec.ofNat _ n) = false) :
    Module.Closes (M.descriptor (BitVec.ofNat _ (n / 20))) := by
  have hidx : (BitVec.ofNat 32 (n / 20)).setWidth (Build.bits .x64) = BitVec.ofNat _ (n / 20) := by
    rw [← BitVec.ofNat_toNat, BitVec.toNat_ofNat, Nat.mod_eq_of_lt (by omega)]
  have h20 : (20 : LPVOID .x64) = BitVec.ofNat _ 20 := rfl
  have hcover : rvaToVa M.base M.ni.importDir.VirtualAddress +
      (BitVec.ofNat 32 (n / 20)).setWidth (Build.bits .x64) * 20 + BitVec.ofNat _ (n % 20) =
        rvaToVa M.base M.ni.importDir.VirtualAddress + BitVec.ofNat _ n := by
    rw [hidx, h20, ← BitVec.ofNat_mul, BitVec.add_assoc, ← BitVec.ofNat_add, Nat.mul_comm,
      Nat.div_add_mod]
  have hread : M.descriptor (BitVec.ofNat _ (n / 20)) = ⟨0, 0, 0⟩ := by
    refine (readMemory_of_unreadable (Nat.mod_lt n (by decide : 0 < 20)) ?_).trans rfl
    exact hcover ▸ hu
  rw [hread]
  exact ⟨rfl, rfl, rfl⟩

theorem descriptors_terminate {u : LPVOID .x64} (hu : M.memory.readable u = false) {n : ℕ}
    (hn : n < 20 * 2 ^ 32) (hdir : M.memory.readable
      (rvaToVa M.base M.ni.importDir.VirtualAddress + BitVec.ofNat _ n) = false)
    (es : List (IatRecord .x64)) : ∃ s, Ends (fun n => descriptorPass n M) (0, es) s := by
  have hlast : n / 20 < 2 ^ 32 := by omega
  refine Ends.of_measure (I := fun s => s.1.toNat ≤ n / 20) (fun s => n / 20 - s.1.toNat) ?_
    (Nat.zero_le _)
  rintro ⟨idx, es⟩ hidx
  dsimp only at hidx
  by_cases hclose : Module.Closes (M.descriptor idx)
  · exact ⟨.done (idx, es), descriptorPass_done hclose es, fun s h => by cases h⟩
  · have hne : idx.toNat ≠ n / 20 := by
      intro he
      have hidx' : idx = BitVec.ofNat _ (n / 20) := by
        rw [← he, BitVec.ofNat_toNat, BitVec.setWidth_eq]
      exact hclose (hidx' ▸ descriptor_closes hn hdir)
    have hnext : (idx + 1).toNat = idx.toNat + 1 := BitVec.toNat_add_of_lt (by
      change idx.toNat + 1 < 2 ^ 32
      omega)
    have hpass : ∃ es', Yields (fun n => descriptorPass n M (idx, es)) (.again (idx + 1, es')) := by
      obtain ⟨dllName, hname⟩ := readDllName_yields (M := M) (M.descriptor idx)
      simp only [descriptorPass_eq hclose]
      by_cases hout : M.StartsOutside (M.descriptor idx)
      · simp only [hout, if_true]
        exact ⟨es, hname.bind (Yields.const _)⟩
      · obtain ⟨s, hend⟩ := thunks_terminate hu dllName
          (rvaToVa M.base (Module.oftRva (M.descriptor idx)))
          (rvaToVa M.base (M.descriptor idx).FirstThunk) es
        simp only [hout, if_false]
        exact ⟨s.2, hname.bind (hend.yields.map _)⟩
    obtain ⟨es', hpass⟩ := hpass
    refine ⟨_, hpass, fun s h => ?_⟩
    obtain rfl := Pass.again.inj h
    dsimp only
    omega

end Terminates

/-- A call that returns returns the same with more passes to spend. -/
theorem collectModuleIat_definite {n : ℕ} {m : Memory b} {imports imports' : Imports b}
    {base : HMODULE b} {modulePath : Option Text}
    (h : collectModuleIat n m imports base modulePath = some imports') :
    Yields (fun n => collectModuleIat n m imports base modulePath) imports' := by
  unfold collectModuleIat collectModuleIatWith at h ⊢
  cases hni : getNtInfo m base with
  | none =>
    simp only [hni] at h
    exact ⟨0, fun _ _ => h⟩
  | some ni =>
    simp only [hni] at h
    obtain ⟨s, hs, rfl⟩ := Option.map_eq_some_iff.mp h
    exact (descriptorPass_definite.ends hs).yields.map _

end Imports

/-- Import collection ends for any contents of memory: somewhere there is an unreadable
address, and one lies less than `20 * 2 ^ 32` bytes behind the start of the import
directory. -/
theorem collectModuleIat_terminates {m : Memory .x64} {imports : Imports .x64}
    {base : HMODULE .x64} {modulePath : Option Text}
    (hfinite : ∀ a, ∃ k : ℕ, m.readable (a + BitVec.ofNat _ k) = false)
    (hdir : ∀ ni, getNtInfo m base = some ni → ∃ n < 20 * 2 ^ 32, m.readable
      (rvaToVa base ni.importDir.VirtualAddress + BitVec.ofNat _ n) = false) :
    ∃ imports', Yields (fun n => collectModuleIat n m imports base modulePath) imports' := by
  unfold collectModuleIat collectModuleIatWith
  cases hni : getNtInfo m base with
  | none => exact ⟨imports, Yields.const _⟩
  | some ni =>
    obtain ⟨k, hk⟩ := hfinite 0
    obtain ⟨n, hn, hu⟩ := hdir ni hni
    obtain ⟨s, hend⟩ := descriptors_terminate (M := ⟨m, base, modulePath, ni⟩) hk hn hu
      imports.entries_
    exact ⟨_, hend.yields.map _⟩

/-- A page that holds the headers of a PE32+ image of 512 bytes and one descriptor: its
only import is by ordinal 1, and its slot starts four bytes before the end of the image.
All bytes that are not listed are zero. -/
def hostile : Memory .x64 where
  bytes a :=
    let content : List (ℕ × BYTE) := [
      (0x000, 0x4D), (0x001, 0x5A), (0x03C, 0x40), (0x040, 0x50), (0x041, 0x45), (0x058, 0x0B),
      (0x059, 0x02), (0x091, 0x02), (0x0D0, 0x50), (0x0D1, 0x01), (0x0D4, 0x28), (0x150, 0x80),
      (0x151, 0x01), (0x160, 0xFC), (0x161, 0x01), (0x180, 0x01), (0x187, 0x80)]
    (content.lookup (a - 0x10000).toNat).getD 0
  writer _ := .debuggee
  readable a := 0x10000 ≤ a ∧ a < 0x11000
  writable _ := true

theorem hostile_ntInfo : getNtInfo hostile 0x10000 = some ⟨true, 0x200, ⟨0x150, 0x28⟩⟩ := by
  decide +kernel

theorem collectModuleIat_terminates_hostile :
    ∃ imports', Yields (fun n => collectModuleIat n hostile ⟨[]⟩ 0x10000 none) imports' := by
  apply collectModuleIat_terminates
  · intro a
    refine ⟨(0 - a).toNat, ?_⟩
    have hzero : a + BitVec.ofNat _ (0 - a).toNat = 0 := by
      rw [BitVec.ofNat_toNat, BitVec.setWidth_eq, BitVec.add_comm, BitVec.sub_add_cancel]
    rw [hzero]
    decide
  · intro ni hni
    rw [hostile_ntInfo, Option.some.injEq] at hni
    subst hni
    exact ⟨0x1000, by decide, by decide⟩

end RoboDbg
