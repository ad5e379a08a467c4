import Mathlib.Data.List.Basic

/-!
# Cells that are written step by step

A state is read through keys. A step may write some of the cells, which ones and with
what depends on the step only, and leaves the others alone. After a run a cell holds
what the last step that writes it has left there.
-/

namespace LastWrites

variable {σ ι κ β : Type*}

/-- A step writes what `written` says, in states of the invariant. -/
structure Writes (I : σ → Prop) (step : σ → ι → σ) (read : σ → κ → β)
    (written : ι → κ → Option β) : Prop where
  keep : ∀ s i, I s → I (step s i)
  read : ∀ s i k, I s → read (step s i) k = (written i k).getD (read s k)

def last (written : ι → κ → Option β) (is : List ι) (k : κ) : Option β :=
  (is.filterMap (fun i => written i k)).getLast?

variable {I : σ → Prop} {step : σ → ι → σ} {read : σ → κ → β} {written : ι → κ → Option β}

theorem getD_last_cons (i : ι) (is : List ι) (k : κ) (x : β) :
    (last written (i :: is) k).getD x = (last written is k).getD ((written i k).getD x) := by
  unfold last
  rw [List.filterMap_cons]
  cases hw : written i k with
  | none => rfl
  | some y =>
    rw [List.getLast?_cons]
    rfl

namespace Writes

variable (h : Writes I step read written)
include h

/-- The last write to a cell is the one that counts. -/
theorem foldl_read {s : σ} (hs : I s) (is : List ι) (k : κ) :
    read (is.foldl step s) k = (last written is k).getD (read s k) := by
  induction is generalizing s with
  | nil => rfl
  | cons i is ih => rw [List.foldl_cons, ih (h.keep s i hs), h.read s i k hs, getD_last_cons]

end Writes
end LastWrites
