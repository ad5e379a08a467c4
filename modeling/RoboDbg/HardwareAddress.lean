import RoboDbg.HardwareRestore

/-!
# The address of a hardware breakpoint

`setHardwareBreakpoint` has an overload for a pointer and one for an `int`. A runtime
address of type `uintptr_t` converts to `int` and not to a pointer: it loses its upper half
and comes back with its sign extended.
-/

namespace RoboDbg

namespace Debugger

variable {b : Build}

def setHardwareBreakpointLPVOID (address : LPVOID b) (reg : DRReg) (type : AccessType)
    (len : BreakpointLength) (d : Debugger b) : Debugger b × Bool :=
  d.setHardwareBreakpoint ⟨0, address, reg, type, len⟩

/-- The overload for an `int`, through `intptr_t`. -/
def setHardwareBreakpointInt (address : INT) (reg : DRReg) (type : AccessType)
    (len : BreakpointLength) (d : Debugger b) : Debugger b × Bool :=
  d.setHardwareBreakpoint ⟨0, address.signExtend b.bits, reg, type, len⟩

/-- A call with a `uintptr_t`, which the compiler converts to `int`. -/
def setHardwareBreakpointUintptr (address : DWORD_PTR b) (reg : DRReg) (type : AccessType)
    (len : BreakpointLength) (d : Debugger b) : Debugger b × Bool :=
  d.setHardwareBreakpointInt (address.setWidth 32) reg type len

def FitsInt (a : DWORD_PTR b) : Prop := a.toNat < 2 ^ 31 ∨ 2 ^ b.bits - 2 ^ 31 ≤ a.toNat

instance (a : DWORD_PTR b) : Decidable (FitsInt a) := inferInstanceAs (Decidable (_ ∨ _))

theorem toNat_signExtend_setWidth (a : DWORD_PTR b) :
    ((a.setWidth 32).signExtend b.bits).toNat = a.toNat % 2 ^ 32 +
      if 2 ^ 31 ≤ a.toNat % 2 ^ 32 then 2 ^ b.bits - 2 ^ 32 else 0 := by
  have hle : 2 ^ 32 ≤ 2 ^ b.bits := Nat.pow_le_pow_right (by decide) b.le_bits
  have hlow : a.toNat % 2 ^ 32 % 2 ^ b.bits = a.toNat % 2 ^ 32 :=
    Nat.mod_eq_of_lt ((Nat.mod_lt _ (by decide)).trans_le hle)
  rw [BitVec.toNat_signExtend, BitVec.toNat_setWidth, BitVec.toNat_setWidth, hlow,
    BitVec.msb_eq_decide, BitVec.toNat_setWidth]
  simp only [decide_eq_true_eq, Nat.reduceSub]

theorem fitsInt_iff (a : DWORD_PTR b) : (a.setWidth 32).signExtend b.bits = a ↔ FitsInt a := by
  have ha := a.isLt
  rw [BitVec.toNat_eq, toNat_signExtend_setWidth, FitsInt]
  cases b with
  | x86 =>
    change a.toNat < 2 ^ 32 at ha
    change a.toNat % 2 ^ 32 + (if 2 ^ 31 ≤ a.toNat % 2 ^ 32 then 2 ^ 32 - 2 ^ 32 else 0) = a.toNat ↔
      a.toNat < 2 ^ 31 ∨ 2 ^ 32 - 2 ^ 31 ≤ a.toNat
    split_ifs <;> omega
  | x64 =>
    change a.toNat < 2 ^ 64 at ha
    change a.toNat % 2 ^ 32 + (if 2 ^ 31 ≤ a.toNat % 2 ^ 32 then 2 ^ 64 - 2 ^ 32 else 0) = a.toNat ↔
      a.toNat < 2 ^ 31 ∨ 2 ^ 64 - 2 ^ 31 ≤ a.toNat
    split_ifs <;> omega

theorem fitsInt_x86 (a : DWORD_PTR .x86) : FitsInt a := by
  change a.toNat < 2 ^ 31 ∨ 2 ^ 32 - 2 ^ 31 ≤ a.toNat
  omega

/-- What the call leaves in the register of a thread, whichever overload makes it. -/
theorem setHardwareBreakpoint_dr {d : Debugger b} {bp : HwBp b} {i : Fin 4}
    (hreg : bp.reg = .ofSlot i) (hok : (d.setHardwareBreakpoint bp).2 = true) (tid : DWORD) :
    ((d.setHardwareBreakpoint bp).1.os.context tid).dr i =
      if tid ∈ d.openable then bp.address else (d.os.context tid).dr i := by
  have hregs := congrArg (fun r => r.1 i) (setHardwareBreakpoint_registers hreg hok tid)
  by_cases hmem : tid ∈ d.openable
  · rw [if_pos hmem] at hregs ⊢
    exact hregs.trans (Function.update_self i _ _)
  · rw [if_neg hmem] at hregs ⊢
    exact hregs

theorem setHardwareBreakpointLPVOID_dr {d : Debugger b} {a : LPVOID b} {i : Fin 4}
    {type : AccessType} {len : BreakpointLength}
    (hok : (d.setHardwareBreakpointLPVOID a (.ofSlot i) type len).2 = true) {tid : DWORD}
    (hmem : tid ∈ d.openable) :
    ((d.setHardwareBreakpointLPVOID a (.ofSlot i) type len).1.os.context tid).dr i = a :=
  (setHardwareBreakpoint_dr rfl hok tid).trans (if_pos hmem)

end Debugger

open Debugger

/-- A call that returns true has put the runtime address into the slot of every thread of
the process exactly if the address fits into an `int`, and the threads that could not be
opened held it before. -/
theorem setHardwareBreakpoint_uintptr_iff {d : Debugger .x64} {a : DWORD_PTR .x64} {i : Fin 4}
    {type : AccessType} {len : BreakpointLength}
    (hok : (d.setHardwareBreakpointUintptr a (.ofSlot i) type len).2 = true) :
    (∀ tid ∈ d.os.processThreads,
      ((d.setHardwareBreakpointUintptr a (.ofSlot i) type len).1.os.context tid).dr i = a) ↔
      ∀ tid ∈ d.os.processThreads, (tid ∈ d.openable → FitsInt a) ∧
        (tid ∉ d.openable → (d.os.context tid).dr i = a) := by
  refine forall₂_congr (fun tid _ => ?_)
  have hdr : ((d.setHardwareBreakpointUintptr a (.ofSlot i) type len).1.os.context tid).dr i =
      if tid ∈ d.openable then (a.setWidth 32).signExtend _ else (d.os.context tid).dr i :=
    setHardwareBreakpoint_dr rfl hok tid
  rw [hdr, ← fitsInt_iff]
  by_cases hmem : tid ∈ d.openable
  · rw [if_pos hmem]
    exact ⟨fun h => ⟨fun _ => h, fun hn => absurd hmem hn⟩, fun h => h.1 hmem⟩
  · rw [if_neg hmem]
    exact ⟨fun h => ⟨fun hm => absurd hm hmem, fun _ => h⟩, fun h => h.2 hmem⟩

theorem setHardwareBreakpoint_uintptr_iff_low :
    let d : Debugger .x64 := new (.ofCode (fun _ => 0x90) [7])
    (∀ tid ∈ d.os.processThreads,
      ((d.setHardwareBreakpointUintptr 0x401000 (.ofSlot 1) .EXECUTE .BYTE).1.os.context tid).dr 1 =
        0x401000) ↔
      ∀ tid ∈ d.os.processThreads, (tid ∈ d.openable → FitsInt (b := .x64) 0x401000) ∧
        (tid ∉ d.openable → (d.os.context tid).dr 1 = 0x401000) := by
  intro d
  exact setHardwareBreakpoint_uintptr_iff (by decide)

/-- An address of an image at its usual place: the register gets the lower half. -/
theorem setHardwareBreakpoint_uintptr_truncates :
    let d : Debugger .x64 := new (.ofCode (fun _ => 0x90) [7])
    let d' := d.setHardwareBreakpointUintptr 0x140001000 (.ofSlot 1) .EXECUTE .BYTE
    d'.2 = true ∧ ¬ ∀ tid ∈ d.os.processThreads, (d'.1.os.context tid).dr 1 = 0x140001000 := by
  intro d d'
  refine ⟨by decide, fun h => ?_⟩
  have hdr : (d'.1.os.context 7).dr 1 = 0x40001000 := by decide
  rw [h 7 (by decide)] at hdr
  exact absurd hdr (by decide)

end RoboDbg
