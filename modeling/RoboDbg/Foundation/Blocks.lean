import Mathlib.Order.Lattice

/-!
# Scans in blocks

A scan goes over the positions `0, 1, …` up to a limit and stops at the first one that is
not good. A scan in blocks asks for `c` positions at once and gets them only if all of them
can be had; at a block that cannot be had it stops where the block begins.
-/

namespace Blocks

variable {good has : ℕ → Prop} {c limit p q : ℕ}

/-- A scan of single positions stops at `p`. -/
structure Stops (good : ℕ → Prop) (limit p : ℕ) : Prop where
  le : p ≤ limit
  before : ∀ k < p, good k
  stop : p < limit → ¬ good p

/-- All positions of the block that begins at `s` can be had; the limit cuts the last
block. -/
def Whole (has : ℕ → Prop) (c limit s : ℕ) : Prop := ∀ k, s ≤ k → k < s + c → k < limit → has k

/-- A scan in blocks stops at `q`: inside a block that it got, or where one begins that it
did not get. -/
structure StopsInBlocks (good has : ℕ → Prop) (c limit q : ℕ) : Prop where
  le : q ≤ limit
  before : ∀ k < q, good k
  stop : q < limit →
    (Whole has c limit (c * (q / c)) ∧ ¬ good q) ∨ (c ∣ q ∧ ¬ Whole has c limit q)

/-- Every block that the scan comes to and that begins with a good position can be had. -/
def Available (good has : ℕ → Prop) (c limit : ℕ) : Prop :=
  ∀ j, (∀ k < c * j, good k) → c * j < limit → good (c * j) → Whole has c limit (c * j)

theorem Stops.le_of_before (hp : Stops good limit p) (hle : q ≤ limit)
    (hq : ∀ k < q, good k) : q ≤ p := by
  by_contra hlt
  exact hp.stop (by omega) (hq p (by omega))

theorem StopsInBlocks.le_stop (hq : StopsInBlocks good has c limit q)
    (hp : Stops good limit p) : q ≤ p :=
  hp.le_of_before hq.le hq.before

theorem whole_of_before (hgood : ∀ k, good k → has k) {s : ℕ} (hend : limit ≤ p ∨ s + c ≤ p)
    (hbefore : ∀ k < p, good k) : Whole has c limit s := by
  intro k _ hk hlimit
  apply hgood k
  apply hbefore
  omega

/-- The two scans stop at the same position exactly if no block is lost of which the scan
of single positions has something to see. -/
theorem StopsInBlocks.eq_iff (hgood : ∀ k, good k → has k)
    (hq : StopsInBlocks good has c limit q) (hp : Stops good limit p) :
    q = p ↔ Available good has c limit := by
  constructor
  · rintro rfl j hbefore hj hstart
    have hlt : c * j < q := by
      have hle := hp.le_of_before (q := c * j + 1) hj (fun k hk => by
        rcases Nat.lt_succ_iff_lt_or_eq.mp hk with hk | rfl
        · exact hbefore k hk
        · exact hstart)
      omega
    by_cases hend : limit ≤ q ∨ c * j + c ≤ q
    · exact whole_of_before hgood hend hq.before
    · have hdiv : q / c = j := by
        apply Nat.div_eq_of_lt_le
        · rw [Nat.mul_comm]
          omega
        · rw [Nat.mul_comm, Nat.mul_succ]
          omega
      rcases hq.stop (by omega) with ⟨hwhole, -⟩ | ⟨hdvd, -⟩
      · rwa [hdiv] at hwhole
      · have hmul := Nat.mul_div_cancel' hdvd
        rw [hdiv] at hmul
        omega
  · intro hall
    have hle := hq.le_stop hp
    by_contra hne
    have hstart : good q := hp.before q (by omega)
    rcases hq.stop (by have := hp.le; omega) with ⟨-, hbad⟩ | ⟨hdvd, hlost⟩
    · exact hbad hstart
    · obtain ⟨j, rfl⟩ := hdvd
      exact hlost (hall j hq.before (by have := hp.le; omega) hstart)

end Blocks
