import Mathlib.Data.List.Chain
import Mathlib.Order.Lattice

/-!
# Pieces of a range

Pieces have a lower and an upper end in a linear order and hold what lies between.
Pieces in ascending order share nothing, so at most one of them holds a point. Pieces
that tile a range lie one behind the other without a gap, so exactly one of them does.
-/

namespace Tilings

variable {α ι : Type*} [LinearOrder α] {lo hi : ι → α}

def Ascending (lo hi : ι → α) (ts : List ι) : Prop := ts.Pairwise (fun s t => hi s ≤ lo t)

instance (ts : List ι) : Decidable (Ascending lo hi ts) :=
  inferInstanceAs (Decidable (ts.Pairwise _))

namespace Ascending

variable {ts : List ι} {s t : ι}

theorem apart (h : Ascending lo hi ts) (hs : s ∈ ts) (ht : t ∈ ts) :
    s = t ∨ hi s ≤ lo t ∨ hi t ≤ lo s := by
  induction ts with
  | nil => cases hs
  | cons u ts ih =>
    obtain ⟨hu, hts⟩ := List.pairwise_cons.mp h
    rcases List.mem_cons.mp hs with rfl | hs'
    · rcases List.mem_cons.mp ht with rfl | ht'
      · exact Or.inl rfl
      · exact Or.inr (Or.inl (hu t ht'))
    · rcases List.mem_cons.mp ht with rfl | ht'
      · exact Or.inr (Or.inr (hu s hs'))
      · exact ih hts hs' ht'

theorem eq_of_holds (h : Ascending lo hi ts) (hs : s ∈ ts) (ht : t ∈ ts) {x : α}
    (hsx : lo s ≤ x ∧ x < hi s) (htx : lo t ≤ x ∧ x < hi t) : s = t := by
  rcases h.apart hs ht with he | hle | hle
  · exact he
  · exact absurd (hsx.2.trans_le (hle.trans htx.1)) (lt_irrefl x)
  · exact absurd (htx.2.trans_le (hle.trans hsx.1)) (lt_irrefl x)

end Ascending

/-- No piece is empty, and each starts where the one before it ends. -/
inductive Tiles (lo hi : ι → α) : α → List ι → α → Prop
  | nil (a : α) : Tiles lo hi a [] a
  | cons {t : ι} {ts : List ι} {c : α} (h : lo t < hi t) (rest : Tiles lo hi (hi t) ts c) :
      Tiles lo hi (lo t) (t :: ts) c

namespace Tiles

variable {a c : α} {ts : List ι}

theorem le (h : Tiles lo hi a ts c) : a ≤ c := by
  induction h with
  | nil a => exact le_rfl
  | cons h _ ih => exact h.le.trans ih

theorem le_lo (h : Tiles lo hi a ts c) {t : ι} (ht : t ∈ ts) : a ≤ lo t := by
  induction h with
  | nil a => cases ht
  | cons h _ ih =>
    rcases List.mem_cons.mp ht with rfl | ht
    · exact le_rfl
    · exact h.le.trans (ih ht)

theorem hi_le (h : Tiles lo hi a ts c) {t : ι} (ht : t ∈ ts) : hi t ≤ c := by
  induction h with
  | nil a => cases ht
  | cons _ rest ih =>
    rcases List.mem_cons.mp ht with rfl | ht
    · exact rest.le
    · exact ih ht

theorem lo_lt_hi (h : Tiles lo hi a ts c) {t : ι} (ht : t ∈ ts) : lo t < hi t := by
  induction h with
  | nil a => cases ht
  | cons h _ ih =>
    rcases List.mem_cons.mp ht with rfl | ht
    · exact h
    · exact ih ht

theorem ascending (h : Tiles lo hi a ts c) : Ascending lo hi ts := by
  induction h with
  | nil a => exact List.Pairwise.nil
  | cons _ rest ih => exact List.pairwise_cons.mpr ⟨fun t ht => rest.le_lo ht, ih⟩

theorem lo_head (h : Tiles lo hi a ts c) {t : ι} (ht : t ∈ ts.head?) : lo t = a := by
  cases h with
  | nil => cases ht
  | cons h rest =>
    obtain rfl := Option.some.inj ht
    rfl

theorem isChain (h : Tiles lo hi a ts c) : ts.IsChain (fun s t => hi s = lo t) := by
  induction h with
  | nil a => exact List.IsChain.nil
  | cons _ rest ih =>
    exact List.isChain_cons.mpr ⟨fun t ht => (rest.lo_head ht).symm, ih⟩

theorem exists_mem (h : Tiles lo hi a ts c) {x : α} (hax : a ≤ x) (hxc : x < c) :
    ∃ t ∈ ts, lo t ≤ x ∧ x < hi t := by
  induction h with
  | nil a => exact absurd (hxc.trans_le hax) (lt_irrefl x)
  | @cons t ts c h rest ih =>
    rcases lt_or_ge x (hi t) with hlt | hge
    · exact ⟨t, List.mem_cons_self, hax, hlt⟩
    · obtain ⟨s, hs, hsx⟩ := ih hge hxc
      exact ⟨s, List.mem_cons_of_mem t hs, hsx⟩

end Tiles
end Tilings
