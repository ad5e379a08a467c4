import Mathlib.Tactic.FinCases
import RoboDbg.Debugger
import RoboDbg.Foundation.BitFields

/-!
# The debug-register codec

A slot is an address register, a local-enable bit of `Dr7` and a four-bit field
of `Dr7` with the access type in its low and the length in its high half. The
engine assigns and releases slots with `int` masks and reads them back bit by
bit; each update changes its own slot only.
-/

namespace RoboDbg

open BitField

theorem Build.le_bits (b : Build) : 32 ≤ b.bits := by
  cases b <;> decide

@[simp] theorem DRReg.toInt_ofSlot (i : Fin 4) : (DRReg.ofSlot i).toInt.toNat = i := by
  fin_cases i <;> rfl

theorem DRReg.ofSlot_ne_NOP (i : Fin 4) : DRReg.ofSlot i ≠ .NOP := by
  revert i
  decide

theorem DRReg.eq_ofSlot {reg : DRReg} (h : reg ≠ .NOP) : ∃ i, reg = .ofSlot i := by
  cases reg with
  | NOP => exact absurd rfl h
  | DR0 => exact ⟨0, rfl⟩
  | DR1 => exact ⟨1, rfl⟩
  | DR2 => exact ⟨2, rfl⟩
  | DR3 => exact ⟨3, rfl⟩

theorem AccessType.ofField_toInt (type : AccessType) :
    AccessType.ofField type.toInt.toNat = type := by
  cases type <;> rfl

theorem BreakpointLength.ofField_toInt (len : BreakpointLength) :
    BreakpointLength.ofField len.toInt.toNat = len := by
  cases len <;> rfl

/-- What an enabled slot watches. -/
structure Slot (b : Build) where
  address : LPVOID b
  type : AccessType
  len : BreakpointLength
deriving DecidableEq

namespace Context

variable {b : Build}

def dr (ctx : Context b) : Fin 4 → DWORD_PTR b
  | 0 => ctx.Dr0
  | 1 => ctx.Dr1
  | 2 => ctx.Dr2
  | 3 => ctx.Dr3

/-- The `switch` that writes one address register; there is none for `NOP`. -/
def withDr (ctx : Context b) (reg : DRReg) (a : DWORD_PTR b) : Option (Context b) :=
  match reg with
  | .DR0 => some { ctx with Dr0 := a }
  | .DR1 => some { ctx with Dr1 := a }
  | .DR2 => some { ctx with Dr2 := a }
  | .DR3 => some { ctx with Dr3 := a }
  | .NOP => none

/-- The address register a `switch` on the slot reads; `nullptr` for `NOP`. -/
def drOf (ctx : Context b) : DRReg → DWORD_PTR b
  | .DR0 => ctx.Dr0
  | .DR1 => ctx.Dr1
  | .DR2 => ctx.Dr2
  | .DR3 => ctx.Dr3
  | .NOP => 0

/-- The `Dr7` arithmetic of `setHardwareBreakpointOnThread`. -/
def assignDr7 (dr7 : DWORD_PTR b) (bp : HwBp b) : DWORD_PTR b :=
  let dr7 := dr7 ||| ofInt _ (1#32 <<< (bp.reg.toInt.toNat * 2))
  let shift := 16 + bp.reg.toInt.toNat * 4
  let dr7 := dr7 &&& ofInt _ (~~~(0xF#32 <<< shift))
  dr7 ||| ofInt _ ((bp.type.toInt ||| (bp.len.toInt <<< 2)) <<< shift)

/-- The `Dr7` arithmetic of `clearHardwareBreakpointOnThread`. -/
def releaseDr7 (dr7 : DWORD_PTR b) (reg : DRReg) : DWORD_PTR b :=
  let dr7 := dr7 &&& ofInt _ (~~~(1#32 <<< (reg.toInt.toNat * 2)))
  dr7 &&& ofInt _ (~~~(0xF#32 <<< (16 + reg.toInt.toNat * 4)))

def assign (ctx : Context b) (bp : HwBp b) : Option (Context b) :=
  (ctx.withDr bp.reg bp.address).map (fun ctx => { ctx with Dr7 := assignDr7 ctx.Dr7 bp })

def release (ctx : Context b) (reg : DRReg) : Context b :=
  let ctx := (ctx.withDr reg 0).getD ctx
  { ctx with Dr7 := releaseDr7 ctx.Dr7 reg }

def enabled (ctx : Context b) (i : Fin 4) : Bool :=
  ctx.Dr7 &&& ofInt _ (1#32 <<< (i.val * 2)) ≠ 0

/-- The slot as `getHardwareBreakpoints` and `getBreakpointByReg` read it. -/
def slot (ctx : Context b) (i : Fin 4) : Option (Slot b) :=
  if ctx.enabled i then
    some ⟨ctx.dr i, .ofField (field ctx.Dr7 (16 + i.val * 4)),
      .ofField (field ctx.Dr7 (18 + i.val * 4))⟩
  else none

theorem enabled_eq (ctx : Context b) (i : Fin 4) :
    ctx.enabled i = ctx.Dr7.getLsbD (i.val * 2) := by
  have hpos : i.val * 2 < 31 := by omega
  rw [Bool.eq_iff_iff, ← and_one_shift_ne_zero b.le_bits ctx.Dr7 hpos]
  simp only [enabled, decide_eq_true_eq]
  rfl

theorem slot_congr {ctx ctx' : Context b} {i : Fin 4} (hdr : ctx'.dr i = ctx.dr i)
    (hbits : ∀ k < 32, k = i.val * 2 ∨ (16 + i.val * 4 ≤ k ∧ k < 20 + i.val * 4) →
      ctx'.Dr7.getLsbD k = ctx.Dr7.getLsbD k) : ctx'.slot i = ctx.slot i := by
  have hen : ctx'.enabled i = ctx.enabled i := by
    rw [enabled_eq, enabled_eq]
    exact hbits _ (by omega) (Or.inl rfl)
  have htype : field ctx'.Dr7 (16 + i.val * 4) = field ctx.Dr7 (16 + i.val * 4) :=
    field_congr b.le_bits (hbits _ (by omega) (by omega)) (hbits _ (by omega) (by omega))
  have hlen : field ctx'.Dr7 (18 + i.val * 4) = field ctx.Dr7 (18 + i.val * 4) :=
    field_congr b.le_bits (hbits _ (by omega) (by omega)) (hbits _ (by omega) (by omega))
  simp only [slot, hen, hdr, htype, hlen]

theorem slot_congr_of_ne {ctx ctx' : Context b} {i j : Fin 4} {x : DWORD_PTR b} (hji : j ≠ i)
    (hdr : ctx'.dr = Function.update ctx.dr i x)
    (hbits : ∀ k < 32, ¬ (k = i.val * 2 ∨ (16 + i.val * 4 ≤ k ∧ k < 20 + i.val * 4)) →
      ctx'.Dr7.getLsbD k = ctx.Dr7.getLsbD k) : ctx'.slot j = ctx.slot j := by
  have hval : j.val ≠ i.val := fun h => hji (Fin.ext h)
  apply slot_congr
  · rw [hdr, Function.update_of_ne hji]
  · intro k hk hpos
    exact hbits k hk (by omega)

theorem withDr_eq (ctx : Context b) (i : Fin 4) (a : DWORD_PTR b) :
    ∃ ctx', ctx.withDr (.ofSlot i) a = some ctx' ∧ ctx'.Dr7 = ctx.Dr7 ∧ ctx'.Ip = ctx.Ip ∧
      ctx'.EFlags = ctx.EFlags ∧ ctx'.dr = Function.update ctx.dr i a := by
  fin_cases i <;> refine ⟨_, rfl, rfl, rfl, rfl, ?_⟩ <;> funext j <;> fin_cases j <;> rfl

theorem getLsbD_fields_of_le (type : AccessType) (len : BreakpointLength) {n : ℕ} (hn : 4 ≤ n) :
    (type.toInt ||| (len.toInt <<< 2)).getLsbD n = false := by
  have hlt : (type.toInt ||| (len.toInt <<< 2)).toNat < 2 ^ 4 := by
    cases type <;> cases len <;> decide
  rw [← BitVec.testBit_toNat]
  exact Nat.testBit_lt_two_pow (hlt.trans_le (Nat.pow_le_pow_right (by omega) hn))

theorem getLsbD_assignDr7 (dr7 : DWORD_PTR b) {bp : HwBp b} {i : Fin 4}
    (hreg : bp.reg = .ofSlot i) {k : ℕ} (hk : k < 32) :
    (assignDr7 dr7 bp).getLsbD k =
      if k = i.val * 2 then true
      else if 16 + i.val * 4 ≤ k ∧ k < 20 + i.val * 4 then
        (bp.type.toInt ||| (bp.len.toInt <<< 2)).getLsbD (k - (16 + i.val * 4))
      else dr7.getLsbD k := by
  simp only [assignDr7, hreg, DRReg.toInt_ofSlot]
  rw [getLsbD_orShifted b.le_bits _ _ hk, getLsbD_clearNibble b.le_bits _ _ hk,
    getLsbD_setBit b.le_bits _ _ hk]
  by_cases hen : k = i.val * 2
  · simp [hen]
    omega
  · by_cases hin : 16 + i.val * 4 ≤ k ∧ k < 20 + i.val * 4
    · have hin' : 16 + i.val * 4 ≤ k ∧ k < 16 + i.val * 4 + 4 := by omega
      simp [hen, hin, hin']
    · have hin' : ¬ (16 + i.val * 4 ≤ k ∧ k < 16 + i.val * 4 + 4) := by omega
      by_cases hle : 16 + i.val * 4 ≤ k
      · have hge : 4 ≤ k - (16 + i.val * 4) := by omega
        simp [hen, hin, hin', getLsbD_fields_of_le _ _ hge]
      · simp [hen, hle]

theorem getLsbD_releaseDr7 (dr7 : DWORD_PTR b) (i : Fin 4) {k : ℕ} (hk : k < 32) :
    (releaseDr7 dr7 (.ofSlot i)).getLsbD k =
      if k = i.val * 2 ∨ (16 + i.val * 4 ≤ k ∧ k < 20 + i.val * 4) then false
      else dr7.getLsbD k := by
  simp only [releaseDr7, DRReg.toInt_ofSlot]
  rw [getLsbD_clearNibble b.le_bits _ _ hk, getLsbD_clearBit b.le_bits _ _ hk]
  have hin : decide (16 + i.val * 4 ≤ k ∧ k < 16 + i.val * 4 + 4) =
      decide (16 + i.val * 4 ≤ k ∧ k < 20 + i.val * 4) := decide_eq_decide.mpr (by omega)
  rw [hin]
  by_cases hen : k = i.val * 2 <;> by_cases hn : 16 + i.val * 4 ≤ k ∧ k < 20 + i.val * 4 <;>
    simp [hen, hn]

theorem fields_assignDr7 (dr7 : DWORD_PTR b) {bp : HwBp b} {i : Fin 4}
    (hreg : bp.reg = .ofSlot i) :
    field (assignDr7 dr7 bp) (16 + i.val * 4) = bp.type.toInt.toNat ∧
      field (assignDr7 dr7 bp) (18 + i.val * 4) = bp.len.toInt.toNat := by
  have hbit : ∀ n < 4, (assignDr7 dr7 bp).getLsbD (16 + i.val * 4 + n) =
      (bp.type.toInt ||| (bp.len.toInt <<< 2)).getLsbD n := by
    intro n hn
    have hne : ¬ 16 + i.val * 4 + n = i.val * 2 := by omega
    have hin : 16 + i.val * 4 ≤ 16 + i.val * 4 + n ∧ 16 + i.val * 4 + n < 20 + i.val * 4 := by
      omega
    rw [getLsbD_assignDr7 dr7 hreg (by omega), if_neg hne, if_pos hin, Nat.add_sub_cancel_left]
  have h0 := hbit 0 (by omega)
  have h1 := hbit 1 (by omega)
  have h2 := hbit 2 (by omega)
  have h3 := hbit 3 (by omega)
  rw [field_eq b.le_bits, field_eq b.le_bits, show 18 + i.val * 4 = 16 + i.val * 4 + 2 by omega,
    show 16 + i.val * 4 + 2 + 1 = 16 + i.val * 4 + 3 by omega, h1, h2, h3]
  rw [Nat.add_zero] at h0
  rw [h0]
  cases bp.type <;> cases bp.len <;> decide

theorem assign_eq (ctx : Context b) {bp : HwBp b} {i : Fin 4} (hreg : bp.reg = .ofSlot i) :
    ∃ ctx', ctx.assign bp = some ctx' ∧ ctx'.Dr7 = assignDr7 ctx.Dr7 bp ∧ ctx'.Ip = ctx.Ip ∧
      ctx'.EFlags = ctx.EFlags ∧ ctx'.dr = Function.update ctx.dr i bp.address := by
  obtain ⟨ctx₁, hw, hdr7, hip, hfl, hdr⟩ := ctx.withDr_eq i bp.address
  refine ⟨{ ctx₁ with Dr7 := assignDr7 ctx.Dr7 bp }, ?_, rfl, hip, hfl, hdr⟩
  rw [assign, hreg, hw, Option.map_some, hdr7]

theorem release_eq (ctx : Context b) (i : Fin 4) :
    (ctx.release (.ofSlot i)).Dr7 = releaseDr7 ctx.Dr7 (.ofSlot i) ∧
      (ctx.release (.ofSlot i)).Ip = ctx.Ip ∧ (ctx.release (.ofSlot i)).EFlags = ctx.EFlags ∧
      (ctx.release (.ofSlot i)).dr = Function.update ctx.dr i 0 := by
  obtain ⟨ctx₁, hw, hdr7, hip, hfl, hdr⟩ := ctx.withDr_eq i 0
  simp only [release, hw, Option.getD_some]
  exact ⟨by rw [hdr7], hip, hfl, hdr⟩

/-- Reading an assigned slot returns what was asked for; the other slots keep
their contents. -/
theorem slot_assign {ctx ctx' : Context b} {bp : HwBp b} {i : Fin 4}
    (hreg : bp.reg = .ofSlot i) (ha : ctx.assign bp = some ctx') :
    ctx'.slot = Function.update ctx.slot i (some ⟨bp.address, bp.type, bp.len⟩) := by
  obtain ⟨ctx₁, ha₁, hdr7, -, -, hdr⟩ := ctx.assign_eq hreg
  rw [ha, Option.some.injEq] at ha₁
  subst ha₁
  funext j
  by_cases hji : j = i
  · subst hji
    have hen : ctx'.enabled j = true := by
      rw [enabled_eq, hdr7, getLsbD_assignDr7 _ hreg (by omega), if_pos rfl]
    obtain ⟨htype, hlen⟩ := fields_assignDr7 ctx.Dr7 hreg
    rw [Function.update_self, slot, if_pos hen, hdr7, htype, hlen, hdr, Function.update_self,
      AccessType.ofField_toInt, BreakpointLength.ofField_toInt]
  · rw [Function.update_of_ne hji]
    apply slot_congr_of_ne hji hdr
    intro k hk hout
    rw [not_or] at hout
    rw [hdr7, getLsbD_assignDr7 _ hreg hk, if_neg hout.1, if_neg hout.2]

theorem slot_release (ctx : Context b) (i : Fin 4) :
    (ctx.release (.ofSlot i)).slot = Function.update ctx.slot i none := by
  obtain ⟨hdr7, -, -, hdr⟩ := ctx.release_eq i
  funext j
  by_cases hji : j = i
  · subst hji
    have hen : ¬ (ctx.release (.ofSlot j)).enabled j = true := by
      rw [enabled_eq, hdr7, getLsbD_releaseDr7 _ _ (by omega), if_pos (Or.inl rfl)]
      simp
    rw [Function.update_self, slot, if_neg hen]
  · rw [Function.update_of_ne hji]
    apply slot_congr_of_ne hji hdr
    intro k hk hout
    rw [hdr7, getLsbD_releaseDr7 _ _ hk, if_neg hout]

end Context
end RoboDbg
