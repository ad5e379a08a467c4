import Mathlib.Data.List.TakeWhile
import Mathlib.Order.Lattice

/-!
# Terminated strings in buffers

A string in a buffer ends at the first terminator. Whoever looks for it reads one element
after another, so without a terminator among them the search leaves the buffer.
-/

namespace Terminated

variable {α : Type*} {nul : α} {s xs : List α}

/-- The search for the terminator reads element `i`: it has not met one before. -/
def Reads (nul : α) (xs : List α) (i : ℕ) : Prop := ∀ j < i, xs[j]? ≠ some nul

def Within (nul : α) (xs : List α) : Prop := ∀ i, Reads nul xs i → i < xs.length

theorem within_iff : Within nul xs ↔ nul ∈ xs := by
  constructor
  · intro h
    by_contra hnone
    refine absurd (h xs.length (fun j _ hj => ?_)) (lt_irrefl _)
    exact hnone (List.mem_of_getElem? hj)
  · intro hmem i hi
    obtain ⟨k, hk, hget⟩ := List.mem_iff_getElem.mp hmem
    by_contra hout
    refine hi k (by omega) ?_
    rw [List.getElem?_eq_getElem hk, hget]

theorem mem_of_take (h : xs.take (s.length + 1) = s ++ [nul]) : nul ∈ xs := by
  have hmem : nul ∈ xs.take (s.length + 1) := by
    rw [h]
    exact List.mem_append_right s (List.mem_singleton_self nul)
  exact List.mem_of_mem_take hmem

section TakeWhile

variable [DecidableEq α]

theorem takeWhile_terminated (hs : nul ∉ s) (rest : List α) :
    (s ++ nul :: rest).takeWhile (· ≠ nul) = s := by
  have hall : ∀ x ∈ s, decide (x ≠ nul) = true := by
    intro x hx
    exact decide_eq_true (ne_of_mem_of_not_mem hx hs)
  rw [List.takeWhile_append_of_pos hall, List.takeWhile_cons_of_neg (by simp), List.append_nil]

theorem takeWhile_cut (hs : nul ∉ s) (n : ℕ) :
    ((s ++ [nul]).take n ++ [nul]).takeWhile (· ≠ nul) = s.take n := by
  by_cases hn : n ≤ s.length
  · rw [List.take_append_of_le_length hn]
    exact takeWhile_terminated (fun h => hs (List.mem_of_mem_take h)) []
  · have hlen : (s ++ [nul]).length ≤ n := by
      rw [List.length_append, List.length_singleton]
      omega
    rw [List.take_of_length_le hlen, List.take_of_length_le (by omega), List.append_assoc]
    exact takeWhile_terminated hs [nul]

/-- What stands before the terminator does not depend on what follows the string. -/
theorem takeWhile_of_take (hs : nul ∉ s) (h : xs.take (s.length + 1) = s ++ [nul]) :
    xs.takeWhile (· ≠ nul) = s := by
  have hsplit : xs = s ++ nul :: xs.drop (s.length + 1) := by
    calc xs = xs.take (s.length + 1) ++ xs.drop (s.length + 1) := (List.take_append_drop _ _).symm
      _ = s ++ nul :: xs.drop (s.length + 1) := by rw [h, List.append_assoc, List.singleton_append]
  rw [hsplit]
  exact takeWhile_terminated hs _

end TakeWhile

end Terminated
