import RoboDbg.HostileImports
import RoboDbg.ImportLookup

/-!
# The slots that are recorded

`collectModuleIat` checks where the two arrays of a descriptor start and not where they
end. A recorded slot, which a caller may take from a lookup and patch, lies in the module
exactly as long as the arrays that the walk comes to do.
-/

namespace RoboDbg

open Loops Imports

variable {b : Build}

/-! ## Where the slots lie -/

namespace Imports

def SlotInside (base : HMODULE b) (ni : NtInfo) (slot : DWORD_PTR b) : Prop :=
  (slot - base).toNat + psize ni.is64 ≤ ni.sizeOfImage.toNat

/-- What `entries_` holds when a pass of one of the two loops begins. -/
inductive EntriesDuring (M : Module b) (entries : List (IatRecord b)) :
    List (IatRecord b) → Prop
  | descriptors {idx : DWORD} {es : List (IatRecord b)}
      (h : Visits (fun n => descriptorPass n M) (0, entries) (idx, es)) :
      EntriesDuring M entries es
  | thunks {idx : DWORD} {i : SIZE_T b} {dllName : Text} {es es' : List (IatRecord b)}
      (h : Visits (fun n => descriptorPass n M) (0, entries) (idx, es))
      (hlive : ¬ Module.Closes (M.descriptor idx))
      (hname : Yields (fun n => readDllName n M (M.descriptor idx)) dllName)
      (hstarts : ¬ M.StartsOutside (M.descriptor idx))
      (h' : Visits (fun n => M.thunkLoop (M.descriptor idx) dllName n) (0, es) (i, es')) :
      EntriesDuring M entries es'

namespace Module

variable (M : Module b)

/-- The walk comes to thunk `i` of descriptor `k`: no descriptor before it closes the
table, its arrays start inside the module, and no thunk up to it is zero. -/
structure Walks (k i : ℕ) : Prop where
  live : ∀ j ≤ k, ¬ Closes (M.descriptor (BitVec.ofNat _ j))
  starts : ¬ M.StartsOutside (M.descriptor (BitVec.ofNat _ k))
  thunks : ∀ j ≤ i,
    M.thunk (rvaToVa M.base (oftRva (M.descriptor (BitVec.ofNat _ k)))) (BitVec.ofNat _ j) ≠ 0

def slot (k i : ℕ) : LPVOID b :=
  M.element (rvaToVa M.base (M.descriptor (BitVec.ofNat _ k)).FirstThunk) (BitVec.ofNat _ i)

/-- The slots of all thunks that the walk comes to end inside the module. -/
def ArraysFit : Prop :=
  ∀ k i, M.Walks k i → (M.descriptor (BitVec.ofNat _ k)).FirstThunk.toNat +
    (i + 1) * psize M.ni.is64 ≤ M.ni.sizeOfImage.toNat

end Module

section Slots

variable {M : Module b}

theorem ofNat_succ {w k : ℕ} : BitVec.ofNat w k + 1 = BitVec.ofNat w (k + 1) :=
  (BitVec.ofNat_add k 1).symm

/-- The offset of a slot does not wrap as long as the slots before it are inside. -/
theorem slotInside_iff {ft : DWORD} {i : ℕ}
    (hlt : ft.toNat + i * psize M.ni.is64 < 2 ^ b.bits) :
    SlotInside M.base M.ni (M.element (rvaToVa M.base ft) (BitVec.ofNat _ i)) ↔
      ft.toNat + (i + 1) * psize M.ni.is64 ≤ M.ni.sizeOfImage.toNat := by
  have hft : ft.setWidth b.bits = BitVec.ofNat _ ft.toNat := (BitVec.ofNat_toNat _ ft).symm
  have hoff : M.element (rvaToVa M.base ft) (BitVec.ofNat _ i) - M.base =
      BitVec.ofNat _ (ft.toNat + i * psize M.ni.is64) := by
    rw [Module.element, rvaToVa, hft, ← BitVec.ofNat_mul, BitVec.add_assoc, ← BitVec.ofNat_add,
      BitVec.add_comm, BitVec.add_sub_cancel]
  rw [SlotInside, hoff, Image.toNat_ofNat_of_lt hlt, Nat.add_mul, Nat.one_mul, Nat.add_assoc]

theorem thunks_visited {imp : ImageImportDescriptor} {dllName : Text}
    {es : List (IatRecord b)} {s : SIZE_T b × List (IatRecord b)}
    (h : Visits (fun n => M.thunkLoop imp dllName n) (0, es) s) :
    ∃ k : ℕ, s.1 = BitVec.ofNat _ k ∧
      (∀ j < k, M.thunk (rvaToVa M.base (Module.oftRva imp)) (BitVec.ofNat _ j) ≠ 0) ∧
      ∃ added, s.2 = es ++ added ∧ ∀ r ∈ added, ∃ j < k,
        r.iatSlot = M.element (rvaToVa M.base imp.FirstThunk) (BitVec.ofNat _ j) := by
  induction h with
  | start => exact ⟨0, rfl, fun j hj => absurd hj (Nat.not_lt_zero j), [], by simp, by simp⟩
  | @again s₁ s₂ h hpass ih =>
    obtain ⟨i, es₁⟩ := s₁
    obtain ⟨k, rfl, hne, added, rfl, hslots⟩ := ih
    rcases thunkPass_cases hpass with ⟨-, he⟩ | ⟨hk, r, hr, he⟩
    · cases he
    · obtain rfl := Pass.again.inj he
      refine ⟨k + 1, ofNat_succ, Nat.forall_lt_succ_right.mpr ⟨hne, hk⟩, added ++ [r],
        List.append_assoc _ _ _, fun r' hr' => ?_⟩
      rcases List.mem_append.mp hr' with hr' | hr'
      · obtain ⟨j, hj, hslot⟩ := hslots r' hr'
        exact ⟨j, Nat.lt_succ_of_lt hj, hslot⟩
      · obtain rfl := List.mem_singleton.mp hr'
        exact ⟨k, Nat.lt_succ_self k, hr⟩

theorem thunks_visits {imp : ImageImportDescriptor} (dllName : Text) (es : List (IatRecord b))
    (k : ℕ)
    (hne : ∀ j < k, M.thunk (rvaToVa M.base (Module.oftRva imp)) (BitVec.ofNat _ j) ≠ 0) :
    ∃ added, Visits (fun n => M.thunkLoop imp dllName n) (0, es) (BitVec.ofNat _ k, es ++ added) ∧
      ∀ j < k, ∃ r ∈ added,
        r.iatSlot = M.element (rvaToVa M.base imp.FirstThunk) (BitVec.ofNat _ j) := by
  induction k with
  | zero =>
    refine ⟨[], ?_, fun j hj => absurd hj (Nat.not_lt_zero j)⟩
    rw [List.append_nil]
    exact .start
  | succ k ih =>
    obtain ⟨added, hvisits, hslots⟩ := ih (fun j hj => hne j (Nat.lt_succ_of_lt hj))
    obtain ⟨r, hr, hrec⟩ := thunkPass_record dllName (rvaToVa M.base imp.FirstThunk)
      (hne k (Nat.lt_succ_self k)) (es ++ added)
    rw [ofNat_succ, List.append_assoc] at hrec
    refine ⟨added ++ [r], .again hvisits hrec, fun j hj => ?_⟩
    rcases Nat.lt_succ_iff_lt_or_eq.mp hj with hj | rfl
    · obtain ⟨r', hr', hslot⟩ := hslots j hj
      exact ⟨r', List.mem_append_left _ hr', hslot⟩
    · exact ⟨r, List.mem_append_right _ (List.mem_singleton_self r), hr⟩

theorem descriptorPass_cases {idx : DWORD} {es : List (IatRecord b)}
    {p : Pass (DWORD × List (IatRecord b))}
    (h : Yields (fun n => descriptorPass n M (idx, es)) p) :
    (Module.Closes (M.descriptor idx) ∧ p = .done (idx, es)) ∨
    (¬ Module.Closes (M.descriptor idx) ∧ ∃ es', p = .again (idx + 1, es') ∧
      (es' = es ∨ ¬ M.StartsOutside (M.descriptor idx) ∧ ∃ i dllName,
        Visits (fun n => M.thunkLoop (M.descriptor idx) dllName n) (0, es) (i, es'))) := by
  by_cases hclose : Module.Closes (M.descriptor idx)
  · exact Or.inl ⟨hclose, h.unique (descriptorPass_done hclose es)⟩
  · obtain ⟨dllName, hname⟩ := readDllName_yields (M := M) (M.descriptor idx)
    simp only [descriptorPass_eq hclose] at h
    have hrest := hname.of_bind h
    by_cases hout : M.StartsOutside (M.descriptor idx)
    · simp only [hout, if_true] at hrest
      exact Or.inr ⟨hclose, es, hrest.unique (Yields.const _), Or.inl rfl⟩
    · simp only [hout, if_false] at hrest
      obtain ⟨n, hn⟩ := hrest.exists_eq
      obtain ⟨s, hs, he⟩ := Option.map_eq_some_iff.mp hn
      obtain ⟨⟨i, es'⟩, hvisits, hdone⟩ := thunkPass_definite.visits hs
      -- the pass that ends the loop leaves its state as it is
      have hsame : s = (i, es') := by
        rcases thunkPass_cases hdone with ⟨-, hd⟩ | ⟨-, r, -, hd⟩
        · exact Pass.done.inj hd
        · cases hd
      subst hsame
      exact Or.inr ⟨hclose, es', he.symm, Or.inr ⟨hout, i, dllName, hvisits⟩⟩

theorem thunks_walked {k : ℕ} {dllName : Text} {i : SIZE_T b} {es es' : List (IatRecord b)}
    (hlive : ∀ j ≤ k, ¬ Module.Closes (M.descriptor (BitVec.ofNat _ j)))
    (hstarts : ¬ M.StartsOutside (M.descriptor (BitVec.ofNat _ k)))
    (h : Visits (fun n => M.thunkLoop (M.descriptor (BitVec.ofNat _ k)) dllName n) (0, es)
      (i, es')) :
    ∃ added, es' = es ++ added ∧ ∀ r ∈ added, ∃ k i, M.Walks k i ∧ r.iatSlot = M.slot k i := by
  obtain ⟨n, -, hne, added, he, hslots⟩ := thunks_visited h
  refine ⟨added, he, fun r hr => ?_⟩
  obtain ⟨j, hj, hslot⟩ := hslots r hr
  exact ⟨k, j, ⟨hlive, hstarts, fun l hl => hne l (hl.trans_lt hj)⟩, hslot⟩

theorem descriptors_visited {entries : List (IatRecord b)} {s : DWORD × List (IatRecord b)}
    (h : Visits (fun n => descriptorPass n M) (0, entries) s) :
    ∃ k : ℕ, s.1 = BitVec.ofNat _ k ∧
      (∀ j < k, ¬ Module.Closes (M.descriptor (BitVec.ofNat _ j))) ∧
      ∃ added, s.2 = entries ++ added ∧
        ∀ r ∈ added, ∃ k i, M.Walks k i ∧ r.iatSlot = M.slot k i := by
  induction h with
  | start => exact ⟨0, rfl, fun j hj => absurd hj (Nat.not_lt_zero j), [], by simp, by simp⟩
  | @again s₁ s₂ h hpass ih =>
    obtain ⟨idx, es⟩ := s₁
    obtain ⟨k, rfl, hlive, added, rfl, hslots⟩ := ih
    rcases descriptorPass_cases hpass with ⟨-, he⟩ | ⟨hk, es', he, hes⟩
    · cases he
    · obtain rfl := Pass.again.inj he
      have hlive' := Nat.forall_lt_succ_right.mpr ⟨hlive, hk⟩
      refine ⟨k + 1, ofNat_succ, hlive', ?_⟩
      rcases hes with hes | ⟨hstarts, i, dllName, hvisits⟩
      · exact ⟨added, hes, hslots⟩
      · obtain ⟨more, he, hmore⟩ :=
          thunks_walked (fun j hj => hlive' j (Nat.lt_succ_iff.mpr hj)) hstarts hvisits
        refine ⟨added ++ more, by rw [he, List.append_assoc], fun r hr => ?_⟩
        rcases List.mem_append.mp hr with hr | hr
        · exact hslots r hr
        · exact hmore r hr

theorem EntriesDuring.appended {entries es : List (IatRecord b)} (h : EntriesDuring M entries es) :
    ∃ added, es = entries ++ added ∧
      ∀ r ∈ added, ∃ k i, M.Walks k i ∧ r.iatSlot = M.slot k i := by
  cases h with
  | descriptors h =>
    obtain ⟨-, -, -, hadded⟩ := descriptors_visited h
    exact hadded
  | thunks h hlive hname hstarts h' =>
    obtain ⟨k, hk, hbefore, added, he, hslots⟩ := descriptors_visited h
    dsimp only at hk he
    subst hk
    have hlive' := Nat.forall_lt_succ_right.mpr ⟨hbefore, hlive⟩
    obtain ⟨more, he', hmore⟩ :=
      thunks_walked (fun j hj => hlive' j (Nat.lt_succ_iff.mpr hj)) hstarts h'
    refine ⟨added ++ more, by rw [he', he, List.append_assoc], fun r hr => ?_⟩
    rcases List.mem_append.mp hr with hr | hr
    · exact hslots r hr
    · exact hmore r hr

/-- Every record that is appended at any time has its slot inside the module. -/
def SlotsInside (M : Module b) (entries : List (IatRecord b)) : Prop :=
  ∀ es, EntriesDuring M entries es →
    ∃ added, es = entries ++ added ∧ ∀ r ∈ added, SlotInside M.base M.ni r.iatSlot

theorem slotsInside_of_arraysFit {entries : List (IatRecord b)} (h : M.ArraysFit) :
    SlotsInside M entries := by
  intro es hes
  obtain ⟨added, he, hslots⟩ := hes.appended
  refine ⟨added, he, fun r hr => ?_⟩
  obtain ⟨k, i, hwalks, hslot⟩ := hslots r hr
  have hfit := h k i hwalks
  have hsize := M.ni.sizeOfImage.isLt.trans_le (Image.two_pow_le_bits (b := b))
  have hle : i * psize M.ni.is64 ≤ (i + 1) * psize M.ni.is64 :=
    Nat.mul_le_mul_right _ (Nat.le_succ i)
  rw [hslot, Module.slot, slotInside_iff (by omega)]
  exact hfit

section Converse

variable {entries : List (IatRecord b)} (hinside : SlotsInside M entries) {k : ℕ}
  {es : List (IatRecord b)}
  (hvisits : Visits (fun n => descriptorPass n M) (0, entries) (BitVec.ofNat _ k, es))
  (hlive : ¬ Module.Closes (M.descriptor (BitVec.ofNat _ k)))
  (hstarts : ¬ M.StartsOutside (M.descriptor (BitVec.ofNat _ k)))
include hinside hvisits hlive hstarts

theorem slot_inside (i : ℕ)
    (hne : ∀ j ≤ i, M.thunk (rvaToVa M.base (Module.oftRva (M.descriptor (BitVec.ofNat _ k))))
      (BitVec.ofNat _ j) ≠ 0) : SlotInside M.base M.ni (M.slot k i) := by
  obtain ⟨dllName, hname⟩ := readDllName_yields (M := M) (M.descriptor (BitVec.ofNat _ k))
  obtain ⟨more, hthunks, hslots⟩ := thunks_visits dllName es (i + 1)
    (fun j hj => hne j (Nat.lt_succ_iff.mp hj))
  obtain ⟨r, hr, hslot⟩ := hslots i (Nat.lt_succ_self i)
  obtain ⟨before, hbefore, -⟩ := hinside es (.descriptors hvisits)
  obtain ⟨added, hadded, hall⟩ :=
    hinside (es ++ more) (.thunks hvisits hlive hname hstarts hthunks)
  rw [hbefore, List.append_assoc] at hadded
  obtain rfl := List.append_cancel_left hadded
  have hin := hall r (List.mem_append_right before hr)
  rwa [hslot] at hin

theorem slot_fits (i : ℕ)
    (hne : ∀ j ≤ i, M.thunk (rvaToVa M.base (Module.oftRva (M.descriptor (BitVec.ofNat _ k))))
      (BitVec.ofNat _ j) ≠ 0) :
    (M.descriptor (BitVec.ofNat _ k)).FirstThunk.toNat + (i + 1) * psize M.ni.is64 ≤
      M.ni.sizeOfImage.toNat := by
  have hpow := Image.two_pow_le_bits (b := b)
  have hslot := slot_inside hinside hvisits hlive hstarts i hne
  induction i with
  | zero =>
    have hft := (M.descriptor (BitVec.ofNat _ k)).FirstThunk.isLt
    exact (slotInside_iff (by omega)).mp hslot
  | succ i ih =>
    have hne' := fun j (hj : j ≤ i) => hne j (Nat.le_succ_of_le hj)
    have hfit := ih hne' (slot_inside hinside hvisits hlive hstarts i hne')
    have hsize := M.ni.sizeOfImage.isLt
    exact (slotInside_iff (by omega)).mp hslot

theorem descriptor_visited_next : ∃ es', Visits (fun n => descriptorPass n M) (0, entries)
    (BitVec.ofNat _ (k + 1), es') := by
  obtain ⟨dllName, hname⟩ := readDllName_yields (M := M) (M.descriptor (BitVec.ofNat _ k))
  have hzero : ∃ i : ℕ, M.thunk
      (rvaToVa M.base (Module.oftRva (M.descriptor (BitVec.ofNat _ k))))
      (BitVec.ofNat _ i) = 0 := by
    by_contra hall
    rw [not_exists] at hall
    have hfit := slot_fits hinside hvisits hlive hstarts M.ni.sizeOfImage.toNat
      (fun j _ => hall j)
    have hpos : 0 < psize M.ni.is64 := by
      cases M.ni.is64 <;> decide
    have hle := Nat.le_mul_of_pos_right (M.ni.sizeOfImage.toNat + 1) hpos
    omega
  obtain ⟨added, hthunks, -⟩ := thunks_visits dllName es (Nat.find hzero)
    (fun j hj => Nat.find_min hzero hj)
  have hend := hthunks.ends (Ends.done (thunkPass_done (Nat.find_spec hzero) _))
  refine ⟨es ++ added, .again hvisits ?_⟩
  simp only [descriptorPass_eq hlive, hstarts, if_false, ← ofNat_succ]
  exact hname.bind (hend.yields.map _)

end Converse

theorem descriptors_visit {entries : List (IatRecord b)} (hinside : SlotsInside M entries) (k : ℕ)
    (hlive : ∀ j < k, ¬ Module.Closes (M.descriptor (BitVec.ofNat _ j))) :
    ∃ es, Visits (fun n => descriptorPass n M) (0, entries) (BitVec.ofNat _ k, es) := by
  induction k with
  | zero => exact ⟨entries, .start⟩
  | succ k ih =>
    obtain ⟨es, hvisits⟩ := ih (fun j hj => hlive j (Nat.lt_succ_of_lt hj))
    have hk := hlive k (Nat.lt_succ_self k)
    by_cases hout : M.StartsOutside (M.descriptor (BitVec.ofNat _ k))
    · obtain ⟨dllName, hname⟩ := readDllName_yields (M := M) (M.descriptor (BitVec.ofNat _ k))
      refine ⟨es, .again hvisits ?_⟩
      simp only [descriptorPass_eq hk, hout, if_true, ← ofNat_succ]
      exact hname.bind (Yields.const _)
    · exact descriptor_visited_next hinside hvisits hk hout

theorem slotsInside_iff {entries : List (IatRecord b)} :
    SlotsInside M entries ↔ M.ArraysFit := by
  constructor
  · intro hinside k i hwalks
    obtain ⟨es, hvisits⟩ := descriptors_visit hinside k (fun j hj => hwalks.live j hj.le)
    exact slot_fits hinside hvisits (hwalks.live k le_rfl) hwalks.starts i hwalks.thunks
  · exact slotsInside_of_arraysFit

theorem entriesDuring_of_eq_some {n : ℕ} {m : Memory b} {imports imports' : Imports b}
    {base : HMODULE b} {modulePath : Option Text} {ni : NtInfo} (hni : getNtInfo m base = some ni)
    (h : collectModuleIat n m imports base modulePath = some imports') :
    EntriesDuring ⟨m, base, modulePath, ni⟩ imports.entries_ imports'.entries_ := by
  simp only [collectModuleIat, collectModuleIatWith, hni] at h
  obtain ⟨s, hs, rfl⟩ := Option.map_eq_some_iff.mp h
  obtain ⟨⟨idx, es⟩, hvisits, hdone⟩ := descriptorPass_definite.visits hs
  have hsame : s = (idx, es) := by
    rcases descriptorPass_cases hdone with ⟨-, hd⟩ | ⟨-, es', hd, -⟩
    · exact Pass.done.inj hd
    · cases hd
  rw [hsame]
  exact .descriptors hvisits

end Slots

end Imports

/-- Whatever the memory holds: the slots of all records, those that a call returns among
them, lie in the module exactly if every thunk array ends before its slots leave it. -/
theorem collectModuleIat_slots_inside_iff {b : Build} (m : Memory b) (imports : Imports b)
    (base : HMODULE b) (modulePath : Option Text) :
    (∀ n imports', collectModuleIat n m imports base modulePath = some imports' →
      (imports'.entries_ = imports.entries_ ∨ ∃ ni, getNtInfo m base = some ni ∧
        EntriesDuring ⟨m, base, modulePath, ni⟩ imports.entries_ imports'.entries_) ∧
      ∀ a, imports'.Found a → ∃ r ∈ imports'.entries_, r.address = a) ∧
    ((∀ ni, getNtInfo m base = some ni →
        SlotsInside ⟨m, base, modulePath, ni⟩ imports.entries_) ↔
      ∀ ni, getNtInfo m base = some ni → Module.ArraysFit ⟨m, base, modulePath, ni⟩) := by
  constructor
  · intro n imports' h
    refine ⟨?_, fun a ha => ha.exists_record⟩
    cases hni : getNtInfo m base with
    | none =>
      simp only [collectModuleIat, collectModuleIatWith, hni] at h
      exact Or.inl (congrArg Imports.entries_ (Option.some.inj h)).symm
    | some ni => exact Or.inr ⟨ni, rfl, entriesDuring_of_eq_some hni h⟩
  · exact forall₂_congr (fun ni _ => slotsInside_iff)

/-- The slot that the page describes goes over the end of its image, and a lookup returns
it. -/
theorem collectModuleIat_slot_outside :
    ∃ imports' r, Yields (fun n => collectModuleIat n hostile ⟨[]⟩ 0x10000 none) imports' ∧
      r ∈ imports'.entries_ ∧ getNtInfo hostile 0x10000 = some ⟨true, 0x200, ⟨0x150, 0x28⟩⟩ ∧
      ¬ SlotInside 0x10000 ⟨true, 0x200, ⟨0x150, 0x28⟩⟩ r.iatSlot ∧
      imports'.findImports (literal "<no-name>") (literal "#1") = [r.address] := by
  let r : IatRecord .x64 :=
    ⟨[], 0x10000, literal "<no-name>", true, 1, [], 0x101FC, 0, 0x101FC, 0⟩
  have hcall : collectModuleIat 3 hostile ⟨[]⟩ 0x10000 none = some ⟨[r]⟩ := by decide +kernel
  have hout : ¬ SlotInside (b := .x64) 0x10000 ⟨true, 0x200, ⟨0x150, 0x28⟩⟩ r.iatSlot := by
    unfold SlotInside
    decide
  have hlookup : (⟨[r]⟩ : Imports .x64).findImports (literal "<no-name>") (literal "#1") =
      [r.address] := by
    decide +kernel
  exact ⟨_, r, collectModuleIat_definite hcall, List.mem_singleton_self r, hostile_ntInfo, hout,
    hlookup⟩

end RoboDbg
