import Mathlib.Data.BitVec

/-!
# Bit fields of a machine word

A word is updated through masks that are computed in 32-bit `int` arithmetic
and then converted to the width of the word, with sign extension. Below bit 32
the conversion changes nothing, so most lemmas say what an update does to a bit
whose position is below 32, and what reading a field returns.
-/

namespace BitField

variable {w : ℕ}

def ofInt (w : ℕ) (x : BitVec 32) : BitVec w := x.signExtend w

theorem getLsbD_ofInt (hw : 32 ≤ w) (x : BitVec 32) {k : ℕ} (hk : k < 32) :
    (ofInt w x).getLsbD k = x.getLsbD k := by
  have hkw : k < w := by omega
  rw [ofInt, BitVec.getLsbD_signExtend, if_pos hk, decide_eq_true hkw, Bool.true_and]

theorem getLsbD_ofInt_of_le (x : BitVec 32) {k : ℕ} (hk : 32 ≤ k) (hkw : k < w) :
    (ofInt w x).getLsbD k = x.msb := by
  rw [ofInt, BitVec.getLsbD_signExtend, if_neg (not_lt.mpr hk), decide_eq_true hkw, Bool.true_and]

theorem getLsbD_one_shift {n : ℕ} (pos : ℕ) {k : ℕ} (hk : k < n) :
    (1#n <<< pos).getLsbD k = decide (k = pos) := by
  rw [BitVec.getLsbD_shiftLeft, BitVec.getLsbD_one, decide_eq_true hk, Bool.true_and]
  by_cases hkp : k = pos
  · subst hkp
    have hn : 0 < n := by omega
    simp [hn]
  · by_cases hlt : k < pos
    · simp [hkp, hlt]
    · have hne : k - pos ≠ 0 := by omega
      simp [hkp, hne]

theorem getLsbD_nibble (k : ℕ) : (0xF#32).getLsbD k = decide (k < 4) := by
  rw [BitVec.getLsbD_ofNat, show 15 = 2 ^ 4 - 1 by rfl, Nat.testBit_two_pow_sub_one]
  by_cases hk : k < 4
  · have hk32 : k < 32 := by omega
    simp [hk, hk32]
  · simp [hk]

section Update

variable (hw : 32 ≤ w) (word : BitVec w) (pos : ℕ) {k : ℕ} (hk : k < 32)
include hw hk

theorem getLsbD_setBit :
    (word ||| ofInt w (1#32 <<< pos)).getLsbD k = (decide (k = pos) || word.getLsbD k) := by
  rw [BitVec.getLsbD_or, getLsbD_ofInt hw _ hk, getLsbD_one_shift pos hk, Bool.or_comm]

theorem getLsbD_clearBit :
    (word &&& ofInt w (~~~(1#32 <<< pos))).getLsbD k =
      (!decide (k = pos) && word.getLsbD k) := by
  rw [BitVec.getLsbD_and, getLsbD_ofInt hw _ hk, BitVec.getLsbD_not, getLsbD_one_shift pos hk,
    decide_eq_true hk, Bool.true_and, Bool.and_comm]

theorem getLsbD_clearNibble :
    (word &&& ofInt w (~~~(0xF#32 <<< pos))).getLsbD k =
      (!decide (pos ≤ k ∧ k < pos + 4) && word.getLsbD k) := by
  rw [BitVec.getLsbD_and, getLsbD_ofInt hw _ hk, BitVec.getLsbD_not, BitVec.getLsbD_shiftLeft,
    getLsbD_nibble]
  by_cases hlt : k < pos
  · have hnot : ¬ (pos ≤ k ∧ k < pos + 4) := by omega
    simp [hk, hlt, hnot]
  · have hsub : k - pos < 4 ↔ pos ≤ k ∧ k < pos + 4 := by omega
    simp [hk, hlt, hsub, Bool.and_comm]

theorem getLsbD_orShifted (x : BitVec 32) :
    (word ||| ofInt w (x <<< pos)).getLsbD k =
      (word.getLsbD k || (decide (pos ≤ k) && x.getLsbD (k - pos))) := by
  rw [BitVec.getLsbD_or, getLsbD_ofInt hw _ hk, BitVec.getLsbD_shiftLeft]
  by_cases hlt : k < pos
  · have hnot : ¬ pos ≤ k := by omega
    simp [hlt, hnot]
  · have hle : pos ≤ k := by omega
    simp [hk, hlt, hle]

end Update

theorem and_one_shift_ne_zero (hw : 32 ≤ w) (word : BitVec w) {pos : ℕ} (hpos : pos < 31) :
    word &&& ofInt w (1#32 <<< pos) ≠ 0#w ↔ word.getLsbD pos = true := by
  have hone : ∀ k < w, (ofInt w (1#32 <<< pos)).getLsbD k = decide (k = pos) := by
    intro k hk
    by_cases hk32 : k < 32
    · rw [getLsbD_ofInt hw _ hk32, getLsbD_one_shift pos hk32]
    · have hmsb : (1#32 <<< pos).msb = false := by
        rw [BitVec.msb_eq_getLsbD_last, getLsbD_one_shift pos (by omega)]
        exact decide_eq_false (by omega)
      rw [ofInt, BitVec.getLsbD_signExtend, if_neg hk32, hmsb, Bool.and_false]
      exact (decide_eq_false (by omega)).symm
  constructor
  · intro hne
    by_contra hbit
    apply hne
    apply BitVec.eq_of_getLsbD_eq
    intro k hk
    rw [BitVec.getLsbD_and, hone k hk, BitVec.getLsbD_zero]
    by_cases hkp : k = pos
    · subst hkp
      simp [hbit]
    · simp [hkp]
  · intro hbit hz
    have hpw : pos < w := by omega
    have hk := congrArg (fun x => BitVec.getLsbD x pos) hz
    simp only [BitVec.getLsbD_and, hone pos hpw, hbit, BitVec.getLsbD_zero] at hk
    simp at hk

/-- `(int) ((word >> pos) & 0b11)`. -/
def field (word : BitVec w) (pos : ℕ) : ℕ := ((word >>> pos) &&& 3#w).toNat

theorem field_eq (hw : 32 ≤ w) (word : BitVec w) (pos : ℕ) :
    field word pos = (word.getLsbD pos).toNat + 2 * (word.getLsbD (pos + 1)).toNat := by
  have hthree : (3#w).toNat = 2 ^ 2 - 1 := by
    rw [BitVec.toNat_ofNat]
    have hle : 2 ^ 32 ≤ 2 ^ w := Nat.pow_le_pow_right (by omega) hw
    exact Nat.mod_eq_of_lt (by omega)
  rw [field, BitVec.toNat_and, hthree, Nat.and_two_pow_sub_one_eq_mod, BitVec.toNat_ushiftRight]
  have h0 : word.getLsbD pos = (word.toNat >>> pos).testBit 0 := by
    rw [Nat.testBit_shiftRight, BitVec.testBit_toNat, Nat.add_zero]
  have h1 : word.getLsbD (pos + 1) = (word.toNat >>> pos).testBit 1 := by
    rw [Nat.testBit_shiftRight, BitVec.testBit_toNat]
  rw [h0, h1, Nat.testBit_succ, Nat.testBit_zero, Nat.testBit_zero]
  generalize word.toNat >>> pos = n
  by_cases hlow : n % 2 = 1 <;> by_cases hhigh : n / 2 % 2 = 1 <;> simp [hlow, hhigh] <;> omega

theorem field_congr (hw : 32 ≤ w) {word word' : BitVec w} {pos : ℕ}
    (h0 : word.getLsbD pos = word'.getLsbD pos)
    (h1 : word.getLsbD (pos + 1) = word'.getLsbD (pos + 1)) : field word pos = field word' pos := by
  rw [field_eq hw, field_eq hw, h0, h1]

end BitField
