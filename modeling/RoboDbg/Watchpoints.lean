import RoboDbg.HardwareBreakpoints

/-!
# What an assigned slot makes the processor watch

The processor reads a slot back from `Dr7` with its own meaning of the `R/W` and
`LEN` fields, in which `10` stands for I/O accesses and for eight bytes. The
enumerators are shifted into the fields as they are, so a slot watches what was
asked for exactly when neither field is `10` or `11`.
-/

namespace RoboDbg

variable {b : Build}

inductive AccessKind
  | fetch
  | read
  | write
deriving DecidableEq

structure Access (b : Build) where
  kind : AccessKind
  address : LPVOID b
  size : ℕ

/-- One of the `n` bytes from `base` on, with addresses wrapping around. -/
def InRange (base : LPVOID b) (n : ℕ) (x : LPVOID b) : Prop := (x - base).toNat < n

def Access.Touches (acc : Access b) (base : LPVOID b) (n : ℕ) : Prop :=
  ∃ k < acc.size, InRange base n (acc.address + BitVec.ofNat _ k)

/-- Kinds of access selected by an `R/W` field; no data access has kind `10`. -/
def decodeRW : ℕ → AccessKind → Bool
  | 0, .fetch => true
  | 1, .write => true
  | 3, .read => true
  | 3, .write => true
  | _, _ => false

def decodeLEN : ℕ → ℕ
  | 0 => 1
  | 1 => 2
  | 3 => 4
  | _ => 8

/-- The processor ignores the address bits below the length. -/
def alignDown (a : LPVOID b) (n : ℕ) : LPVOID b := BitVec.ofNat _ (a.toNat / n * n)

/-- Slot `i`, enabled locally or globally, fires for an access. -/
def Context.Triggers (ctx : Context b) (i : Fin 4) (acc : Access b) : Prop :=
  (ctx.Dr7.getLsbD (i.val * 2) = true ∨ ctx.Dr7.getLsbD (i.val * 2 + 1) = true) ∧
    decodeRW (BitField.field ctx.Dr7 (16 + i.val * 4)) acc.kind = true ∧
    acc.Touches (alignDown (ctx.dr i) (decodeLEN (BitField.field ctx.Dr7 (18 + i.val * 4))))
      (decodeLEN (BitField.field ctx.Dr7 (18 + i.val * 4)))

def AccessType.Names : AccessType → AccessKind → Prop
  | .EXECUTE, kind => kind = .fetch
  | .WRITE, kind => kind = .write
  | .READWRITE, kind => kind = .read ∨ kind = .write
  | .unnamed3, _ => False

def BreakpointLength.bytes : BreakpointLength → ℕ
  | .BYTE => 1
  | .WORD => 2
  | .DWORD => 4
  | .QWORD => 8

/-- The accesses a caller asks to be told about. -/
def HwBp.Asks (bp : HwBp b) (acc : Access b) : Prop :=
  bp.type.Names acc.kind ∧ acc.Touches bp.address bp.len.bytes

theorem alignDown_of_aligned {a : LPVOID b} {n : ℕ} (h : a.toNat % n = 0) : alignDown a n = a := by
  have hmul : a.toNat / n * n = a.toNat := Nat.div_mul_cancel (Nat.dvd_of_mod_eq_zero h)
  rw [alignDown, hmul, BitVec.ofNat_toNat, BitVec.setWidth_eq]

theorem inRange_self (base : LPVOID b) {n : ℕ} (hn : 0 < n) : InRange base n base := by
  simpa [InRange] using hn

theorem touches_one (kind : AccessKind) (x base : LPVOID b) (n : ℕ) :
    (Access.mk kind x 1).Touches base n ↔ InRange base n x := by
  constructor
  · rintro ⟨k, hk, h⟩
    obtain rfl : k = 0 := by simpa using hk
    simpa using h
  · intro h
    exact ⟨0, Nat.one_pos, by simpa using h⟩

theorem triggers_assigned {d : Debugger b} {bp : HwBp b} {i : Fin 4} {tid : DWORD}
    (hok : (d.setHardwareBreakpointOnThread bp).2 = true) (hreg : bp.reg = .ofSlot i)
    (htid : d.os.handles.lookup bp.hThread = some tid) (acc : Access b) :
    ((d.setHardwareBreakpointOnThread bp).1.os.context tid).Triggers i acc ↔
      decodeRW bp.type.toInt.toNat acc.kind = true ∧
        acc.Touches (alignDown bp.address (decodeLEN bp.len.toInt.toNat))
          (decodeLEN bp.len.toInt.toNat) := by
  obtain ⟨tid', ctx, hl, hassign, -, he⟩ := Debugger.setHardwareBreakpointOnThread_true hok
  obtain rfl : tid = tid' := Option.some.inj (htid.symm.trans hl)
  obtain ⟨ctx', hctx', hdr7, -, -, hdr⟩ := (d.os.context tid).assign_eq hreg
  obtain rfl : ctx = ctx' := Option.some.inj (hassign.symm.trans hctx')
  obtain ⟨htype, hlen⟩ := Context.fields_assignDr7 (d.os.context tid).Dr7 hreg
  have hon : ctx.Dr7.getLsbD (i.val * 2) = true := by
    rw [hdr7, Context.getLsbD_assignDr7 _ hreg (by omega), if_pos rfl]
  have hctx : (d.setHardwareBreakpointOnThread bp).1.os.context tid = ctx := by
    rw [he]
    simp
  have haddr : ctx.dr i = bp.address := by rw [hdr, Function.update_self]
  rw [hctx, Context.Triggers, hon, hdr7, htype, hlen, haddr]
  simp only [true_or, true_and]

theorem toNat_four_sub (a : LPVOID b) : (a + 4 - a).toNat = 4 := by
  rw [add_sub_cancel_left]
  cases b <;> rfl

/-- Rounding an odd multiple of four down to eight moves it out of its four bytes. -/
theorem alignDown_eight_not_inRange {a : LPVOID b} (h4 : a.toNat % 4 = 0) (h8 : a.toNat % 8 ≠ 0) :
    ¬ InRange a 4 (alignDown a 8) := by
  have hlt := a.isLt
  have hw : 2 ^ b.bits = 2 ^ 32 ∨ 2 ^ b.bits = 2 ^ 64 := by
    cases b
    · exact Or.inl rfl
    · exact Or.inr rfl
  rw [InRange, alignDown, BitVec.toNat_sub, BitVec.toNat_ofNat]
  rcases hw with hw | hw
  · rw [hw] at hlt ⊢
    omega
  · rw [hw] at hlt ⊢
    omega

theorem covers_other_bytes {bp : HwBp b} (hlen : bp.len = .DWORD ∨ bp.len = .QWORD)
    (haligned : bp.address.toNat % bp.len.bytes = 0) :
    ∃ x : LPVOID b, ¬ (InRange (alignDown bp.address (decodeLEN bp.len.toInt.toNat))
      (decodeLEN bp.len.toInt.toNat) x ↔ InRange bp.address bp.len.bytes x) := by
  obtain ⟨h, a, reg, type, len⟩ := bp
  rcases hlen with rfl | rfl
  · by_cases h8 : a.toNat % 8 = 0
    · refine ⟨a + 4, ?_⟩
      have hbase : alignDown a 8 = a := alignDown_of_aligned h8
      change ¬ (InRange (alignDown a 8) 8 (a + 4) ↔ InRange a 4 (a + 4))
      rw [hbase, InRange, InRange, toNat_four_sub]
      omega
    · refine ⟨alignDown a 8, ?_⟩
      have hout : ¬ InRange a 4 (alignDown a 8) := alignDown_eight_not_inRange haligned h8
      change ¬ (InRange (alignDown a 8) 8 (alignDown a 8) ↔ InRange a 4 (alignDown a 8))
      intro h
      exact hout (h.mp (inRange_self _ (by omega)))
  · refine ⟨a + 4, ?_⟩
    have h8 : a.toNat % 8 = 0 := haligned
    have hbase : alignDown a 4 = a := alignDown_of_aligned (by omega)
    change ¬ (InRange (alignDown a 4) 4 (a + 4) ↔ InRange a 8 (a + 4))
    rw [hbase, InRange, InRange, toNat_four_sub]
    omega

/-- A successful call with a length-aligned address makes the slot fire for
exactly the accesses asked for if and only if the type is `EXECUTE` or `WRITE`
and the length is `BYTE` or `WORD`. -/
theorem triggers_iff_asked {b : Build} {d : Debugger b} {bp : HwBp b} {i : Fin 4} {tid : DWORD}
    (hok : (d.setHardwareBreakpointOnThread bp).2 = true) (hreg : bp.reg = .ofSlot i)
    (htid : d.os.handles.lookup bp.hThread = some tid)
    (haligned : bp.address.toNat % bp.len.bytes = 0) :
    (∀ acc : Access b, ((d.setHardwareBreakpointOnThread bp).1.os.context tid).Triggers i acc ↔
      bp.Asks acc) ↔
      (bp.type = .EXECUTE ∨ bp.type = .WRITE) ∧ (bp.len = .BYTE ∨ bp.len = .WORD) := by
  simp only [triggers_assigned hok hreg htid]
  constructor
  · intro h
    have hone := fun kind x => h ⟨kind, x, 1⟩
    simp only [touches_one, HwBp.Asks] at hone
    have htype : bp.type = .EXECUTE ∨ bp.type = .WRITE := by
      cases ht : bp.type with
      | EXECUTE => exact Or.inl rfl
      | WRITE => exact Or.inr rfl
      | READWRITE =>
        have hbytes : 0 < bp.len.bytes := by cases bp.len <;> decide
        have hasked : bp.type.Names .read ∧ InRange bp.address bp.len.bytes bp.address :=
          ⟨by rw [ht]; exact Or.inl rfl, inRange_self _ hbytes⟩
        have hrw := ((hone .read bp.address).mpr hasked).1
        rw [ht] at hrw
        cases hrw
      | unnamed3 =>
        have hbytes : 0 < decodeLEN bp.len.toInt.toNat := by cases bp.len <;> decide
        have hrw : decodeRW bp.type.toInt.toNat .read = true := by rw [ht]; rfl
        have hnames := ((hone .read _).mp ⟨hrw, inRange_self _ hbytes⟩).1
        rw [ht] at hnames
        exact hnames.elim
    refine ⟨htype, ?_⟩
    by_contra hlen
    have hlong : bp.len = .DWORD ∨ bp.len = .QWORD := by
      revert hlen
      cases bp.len <;> decide
    obtain ⟨x, hx⟩ := covers_other_bytes hlong haligned
    apply hx
    rcases htype with ht | ht
    · simpa [ht, AccessType.toInt, decodeRW, AccessType.Names] using hone .fetch x
    · simpa [ht, AccessType.toInt, decodeRW, AccessType.Names] using hone .write x
  · rintro ⟨htype, hlen⟩ acc
    have hsame : decodeLEN bp.len.toInt.toNat = bp.len.bytes := by
      rcases hlen with hl | hl <;> rw [hl] <;> rfl
    have hkind : decodeRW bp.type.toInt.toNat acc.kind = true ↔ bp.type.Names acc.kind := by
      rcases htype with ht | ht <;> rw [ht] <;> cases acc.kind <;>
        simp [AccessType.toInt, decodeRW, AccessType.Names]
    rw [hsame, alignDown_of_aligned haligned, hkind, HwBp.Asks]

theorem triggers_iff_asked_execute :
    let d : Debugger .x64 := (Debugger.new (.ofCode (fun _ => 0x90) [7])).actualizeThreadList
    let d := { d with os := d.os.withContext 7 { Context.zero with Dr7 := 0x33000402 } }
    let bp : HwBp .x64 := ⟨1, 0x401000, .DR3, .EXECUTE, .BYTE⟩
    (∀ acc : Access .x64, ((d.setHardwareBreakpointOnThread bp).1.os.context 7).Triggers 3 acc ↔
      bp.Asks acc) ↔
      (bp.type = .EXECUTE ∨ bp.type = .WRITE) ∧ (bp.len = .BYTE ∨ bp.len = .WORD) :=
  triggers_iff_asked (by decide) rfl rfl (by decide)

/-- A read-write breakpoint is set successfully and no data read fires it. -/
theorem readwrite_not_triggered :
    let d : Debugger .x64 := (Debugger.new (.ofCode (fun _ => 0x90) [7])).actualizeThreadList
    let bp : HwBp .x64 := ⟨1, 0x401000, .DR0, .READWRITE, .BYTE⟩
    let d' := d.setHardwareBreakpointOnThread bp
    d'.2 = true ∧ bp.Asks ⟨.read, 0x401000, 1⟩ ∧
      ¬ (d'.1.os.context 7).Triggers 0 ⟨.read, 0x401000, 1⟩ := by
  refine ⟨by decide, ⟨Or.inl rfl, 0, by decide, by unfold InRange; decide⟩, ?_⟩
  rintro ⟨-, hrw, -⟩
  revert hrw
  decide

end RoboDbg
