import Mathlib.Order.Lattice
import RoboDbg.Foundation.Tilings

/-!
# Stretches of equal labels

Indices carry labels. A stretch begins at an index and goes on to the first one with
another label, or to the end of the range. The stretches of a range, one behind the
other, show between which neighbours the label changes, and nothing else.
-/

namespace Segments

open Tilings

variable {α β : Type*}

section Reach

variable [DecidableEq α]

/-- The first of the `n` indices from `i` on whose label is not `x`, or the end. -/
def reach (label : ℕ → α) (x : α) (i : ℕ) : ℕ → ℕ
  | 0 => i
  | n + 1 => if label i = x then reach label x (i + 1) n else i

variable {label : ℕ → α} {x : α} {i n : ℕ}

theorem le_reach : i ≤ reach label x i n := by
  induction n generalizing i with
  | zero => exact le_rfl
  | succ n ih =>
    rw [reach]
    split_ifs
    · exact (Nat.le_succ i).trans ih
    · exact le_rfl

theorem reach_le : reach label x i n ≤ i + n := by
  induction n generalizing i with
  | zero => exact le_rfl
  | succ n ih =>
    rw [reach]
    split_ifs
    · have hle := @ih (i + 1)
      omega
    · omega

theorem label_of_lt_reach {j : ℕ} (hij : i ≤ j) (hj : j < reach label x i n) : label j = x := by
  induction n generalizing i with
  | zero => exact absurd hj (Nat.not_lt.mpr hij)
  | succ n ih =>
    rw [reach] at hj
    split_ifs at hj with hx
    · rcases Nat.eq_or_lt_of_le hij with rfl | hlt
      · exact hx
      · exact ih hlt hj
    · exact absurd hj (Nat.not_lt.mpr hij)

theorem label_reach_ne (h : reach label x i n < i + n) : label (reach label x i n) ≠ x := by
  induction n generalizing i with
  | zero => exact absurd h (lt_irrefl i)
  | succ n ih =>
    rw [reach] at h ⊢
    split_ifs at h ⊢ with hx
    · exact ih (by omega)
    · exact hx

theorem lt_reach (h : label i = x) (hn : 0 < n) : i < reach label x i n := by
  obtain ⟨n, rfl⟩ : ∃ k, n = k + 1 := ⟨n - 1, by omega⟩
  rw [reach, if_pos h]
  exact le_reach

theorem reach_eq {j k : ℕ} (hij : i ≤ j) (hjk : j ≤ k) (same : ∀ y, i ≤ y → y < j → label y = x)
    (other : j < k → label j ≠ x) : reach label x i (k - i) = j := by
  have hup : reach label x i (k - i) ≤ i + (k - i) := reach_le
  apply le_antisymm
  · by_contra hlt
    exact other (by omega) (label_of_lt_reach (n := k - i) hij (by omega))
  · by_contra hlt
    exact label_reach_ne (n := k - i) (by omega) (same _ le_reach (by omega))

end Reach

/-- The range from the first index on, cut where the label changes. -/
inductive Cut (label : ℕ → α) : ℕ → List (ℕ × ℕ) → ℕ → Prop
  | nil (i : ℕ) : Cut label i [] i
  | cons {i j k : ℕ} {ss : List (ℕ × ℕ)} (h : i < j)
      (same : ∀ x, i ≤ x → x < j → label x = label i) (other : j < k → label j ≠ label i)
      (rest : Cut label j ss k) : Cut label i ((i, j) :: ss) k

theorem exists_cut [DecidableEq α] (label : ℕ → α) {i k : ℕ} (h : i ≤ k) :
    ∃ ss, Cut label i ss k := by
  induction hn : k - i using Nat.strong_induction_on generalizing i with
  | _ n ih =>
    rcases Nat.eq_or_lt_of_le h with rfl | hlt
    · exact ⟨[], .nil i⟩
    · have hup : i < reach label (label i) i (k - i) := lt_reach rfl (by omega)
      have hle : reach label (label i) i (k - i) ≤ i + (k - i) := reach_le
      obtain ⟨ss, hss⟩ := ih (k - reach label (label i) i (k - i)) (by omega) (by omega) rfl
      refine ⟨_, .cons hup (fun x hx hxj => label_of_lt_reach hx hxj) (fun hjk => ?_) hss⟩
      exact label_reach_ne (by omega)

namespace Cut

variable {label : ℕ → α} {label' : ℕ → β} {i k : ℕ} {ss ss' : List (ℕ × ℕ)}

theorem tiles (h : Cut label i ss k) : Tiles Prod.fst Prod.snd i ss k := by
  induction h with
  | nil i => exact Tiles.nil i
  | @cons i j k ss h _ _ _ ih => exact Tiles.cons (t := (i, j)) h ih

theorem same_label (h : Cut label i ss k) {s : ℕ × ℕ} (hs : s ∈ ss) {x : ℕ} (hx : s.1 ≤ x)
    (hxs : x < s.2) : label x = label s.1 := by
  induction h with
  | nil i => cases hs
  | cons _ same _ _ ih =>
    rcases List.mem_cons.mp hs with rfl | hs
    · exact same x hx hxs
    · exact ih hs

theorem label_stop_ne (h : Cut label i ss k) {s : ℕ × ℕ} (hs : s ∈ ss) (hk : s.2 < k) :
    label s.2 ≠ label s.1 := by
  induction h with
  | nil i => cases hs
  | cons _ _ other _ ih =>
    rcases List.mem_cons.mp hs with rfl | hs
    · exact other hk
    · exact ih hs hk

/-- Neighbours lie in two stretches exactly if their labels differ. -/
theorem starts_iff (h : Cut label i ss k) {x : ℕ} (hi : i ≤ x) (hx : x + 1 < k) :
    (∃ s ∈ ss, s.1 = x + 1) ↔ label x ≠ label (x + 1) := by
  constructor
  · rintro ⟨s, hs, hsx⟩
    induction h with
    | nil i => cases hs
    | @cons i j k ss hij same other rest ih =>
      rcases List.mem_cons.mp hs with rfl | hs'
      · exact absurd hsx (by simp only; omega)
      · have hjs : j ≤ s.1 := rest.tiles.le_lo hs'
        rcases Nat.lt_or_ge x j with hlt | hge
        · obtain rfl : j = x + 1 := by omega
          rw [same x hi (by omega)]
          exact (other hx).symm
        · exact ih hge hx hs'
  · intro hne
    obtain ⟨s, hs, hsx, hxs⟩ := h.tiles.exists_mem (x := x + 1) (by omega) hx
    refine ⟨s, hs, Nat.le_antisymm hsx ?_⟩
    by_contra hlt
    exact hne ((h.same_label hs (by omega) (by omega)).trans (h.same_label hs hsx hxs).symm)

theorem first_stop_le {j j' : ℕ} (hij : i < j)
    (same' : ∀ x, i ≤ x → x < j' → label' x = label' i) (other : j < k → label j ≠ label i)
    (same : ∀ x, i ≤ x → x < j → label x = label i) (hk : j' ≤ k)
    (hchange : ∀ x, i ≤ x → x + 1 < k → (label x = label (x + 1) ↔ label' x = label' (x + 1))) :
    j' ≤ j := by
  by_contra hlt
  obtain ⟨x, rfl⟩ : ∃ x, j = x + 1 := ⟨j - 1, by omega⟩
  have hsame' : label' x = label' (x + 1) :=
    (same' x (by omega) (by omega)).trans (same' (x + 1) (by omega) (by omega)).symm
  have hsame := (hchange x (by omega) (by omega)).mpr hsame'
  exact other (by omega) (hsame.symm.trans (same x (by omega) (by omega)))

theorem eq_of_changes (h : Cut label i ss k) (h' : Cut label' i ss' k)
    (hchange : ∀ x, i ≤ x → x + 1 < k → (label x = label (x + 1) ↔ label' x = label' (x + 1))) :
    ss = ss' := by
  induction h generalizing ss' with
  | nil i =>
    cases h' with
    | nil => rfl
    | cons hij _ _ rest => exact absurd rest.tiles.le (Nat.not_le.mpr hij)
  | @cons i j k ss hij same other rest ih =>
    cases h' with
    | nil => exact absurd rest.tiles.le (Nat.not_le.mpr hij)
    | @cons _ j' _ ss' hij' same' other' rest' =>
      obtain rfl : j = j' := le_antisymm
        (first_stop_le hij' same other' same' rest.tiles.le
          (fun x hx hxk => (hchange x hx hxk).symm))
        (first_stop_le hij same' other same rest'.tiles.le hchange)
      rw [ih rest' (fun x hx hxk => hchange x (hij.le.trans hx) hxk)]

/-- Two labels cut a range in the same way exactly if they change between the same
neighbours. -/
theorem eq_iff (h : Cut label i ss k) (h' : Cut label' i ss' k) :
    ss = ss' ↔
      ∀ x, i ≤ x → x + 1 < k → (label x = label (x + 1) ↔ label' x = label' (x + 1)) := by
  refine ⟨?_, h.eq_of_changes h'⟩
  rintro rfl x hx hxk
  exact not_iff_not.mp ((h.starts_iff hx hxk).symm.trans (h'.starts_iff hx hxk))

end Cut
end Segments
