import Mathlib.Data.List.Chain
import Mathlib.Data.List.Sort
import Mathlib.Data.BitVec

/-!
# Erasing from an ordered table while walking it by index

An ordered table is the ascending list of its entries: an index names an entry
of that list, and erasing a key takes its entry out. A walk that erases the
entry at its index and then moves its index on passes over the successor.
-/

namespace OrderedTable

open Std

section Walk

variable {α : Type*}

/-- What is left after a walk that erases the dead elements it stands on and
moves on by one index each time. -/
def skipErase (dead : α → Bool) : List α → List α
  | [] => []
  | [x] => if dead x then [] else [x]
  | x :: y :: l => if dead x then y :: skipErase dead l else x :: skipErase dead (y :: l)

theorem skipErase_cons_of_dead {dead : α → Bool} {x : α} (hx : dead x = true) (l : List α) :
    skipErase dead (x :: l) = l.take 1 ++ skipErase dead (l.drop 1) := by
  cases l with
  | nil => simp [skipErase, hx]
  | cons y l => simp [skipErase, hx]

theorem skipErase_cons_of_alive {dead : α → Bool} {x : α} (hx : dead x = false) (l : List α) :
    skipErase dead (x :: l) = x :: skipErase dead l := by
  cases l with
  | nil => simp [skipErase, hx]
  | cons y l => simp [skipErase, hx]

theorem isChain_cons_of_alive {dead : α → Bool} {x : α} (hx : dead x = false) (l : List α) :
    (x :: l).IsChain (fun x y => dead x = false ∨ dead y = false) ↔
      l.IsChain (fun x y => dead x = false ∨ dead y = false) := by
  cases l with
  | nil => simp
  | cons y l => simp [List.isChain_cons_cons, hx]

/-- The walk removes exactly the dead elements when no two of them are neighbours. -/
theorem skipErase_eq_filter_iff (dead : α → Bool) (l : List α) :
    skipErase dead l = l.filter (fun x => !dead x) ↔
      l.IsChain (fun x y => dead x = false ∨ dead y = false) := by
  fun_induction skipErase dead l with
  | case1 => simp
  | case2 x hx => simp [hx]
  | case3 x hx => simp [hx]
  | case4 x y l hx ih =>
    rw [List.filter_cons_of_neg (by simp [hx]), List.isChain_cons_cons]
    cases hy : dead y with
    | true =>
      refine iff_of_false (fun he => ?_) (fun hc => ?_)
      · have hmem : y ∈ (y :: l).filter (fun x => !dead x) := he ▸ List.mem_cons_self
        simp [hy] at hmem
      · simp [hx] at hc
    | false =>
      rw [List.filter_cons_of_pos (by simp [hy]), isChain_cons_of_alive hy, ← ih]
      simp
  | case5 x y l hx ih =>
    have hx' : dead x = false := by simpa using hx
    rw [List.filter_cons_of_pos (by simp [hx']), isChain_cons_of_alive hx', ← ih]
    simp

end Walk

section Table

variable {α β : Type*} {cmp : α → α → Ordering}

open DTreeMap.Internal (Impl)

theorem entryAtIdx?_impl (t : Impl α (fun _ => β)) (h : t.Balanced) (i : ℕ) :
    Impl.Const.entryAtIdx? t i = (t.toListModel.map (fun e => (e.1, e.2)))[i]? := by
  induction t generalizing i with
  | leaf => simp [Impl.Const.entryAtIdx?]
  | inner size k v l r ihl ihr =>
    rw [Impl.Const.entryAtIdx?, Impl.toListModel_inner, List.map_append, List.map_cons,
      List.getElem?_append, List.length_map, ← Impl.size_eq_length l h.left, ihl h.left,
      ihr h.right]
    cases hc : compare i l.size with
    | lt =>
      rw [Nat.compare_eq_lt] at hc
      rw [if_pos hc]
    | eq =>
      rw [Nat.compare_eq_eq] at hc
      simp [hc]
    | gt =>
      rw [Nat.compare_eq_gt] at hc
      obtain ⟨j, hj⟩ : ∃ j, i - l.size = j + 1 := ⟨i - l.size - 1, by omega⟩
      rw [if_neg (by omega), hj]
      simp

theorem entryAtIdx?_eq_getElem? (t : TreeMap α β cmp) (i : ℕ) :
    t.entryAtIdx? i = t.toList[i]? := by
  let _ : Ord α := ⟨cmp⟩
  have h := entryAtIdx?_impl t.inner.inner t.inner.wf.balanced i
  rw [← Impl.Const.toList_eq_toListModel_map] at h
  exact h

variable [TransCmp cmp] [LawfulEqCmp cmp]

theorem toList_eq_of_forall {t : TreeMap α β cmp} {l : List (α × β)}
    (hl : l.Pairwise (fun e e' => cmp e.1 e'.1 = .lt))
    (hm : ∀ k v, (k, v) ∈ l ↔ t[k]? = some v) : t.toList = l := by
  have hirrefl : Std.Irrefl (fun e e' : α × β => cmp e.1 e'.1 = .lt) :=
    ⟨fun e he => by simp [ReflCmp.compare_self] at he⟩
  have hanti : Std.Antisymm (fun e e' : α × β => cmp e.1 e'.1 = .lt) :=
    ⟨fun e e' he he' => by
      rw [OrientedCmp.gt_of_lt he] at he'
      cases he'⟩
  refine List.Pairwise.eq_of_mem_iff TreeMap.ordered_keys_toList hl ?_
  rintro ⟨k, v⟩
  rw [TreeMap.mem_toList_iff_getElem?_eq_some, hm]

theorem toList_erase {t : TreeMap α β cmp} {pre post : List (α × β)} {e : α × β}
    (h : t.toList = pre ++ e :: post) : (t.erase e.1).toList = pre ++ post := by
  have hord : (pre ++ e :: post).Pairwise (fun e e' => cmp e.1 e'.1 = .lt) :=
    h ▸ TreeMap.ordered_keys_toList
  have hsub : (pre ++ post).Sublist (pre ++ e :: post) :=
    (List.sublist_cons_self e post).append_left pre
  refine toList_eq_of_forall (hord.sublist hsub) (fun k v => ?_)
  have hkeys : ∀ x ∈ pre ++ post, cmp e.1 x.1 ≠ .eq := by
    intro x hx
    rw [List.pairwise_append, List.pairwise_cons] at hord
    obtain ⟨-, ⟨hpost, -⟩, hpre⟩ := hord
    rcases List.mem_append.mp hx with hx | hx
    · have hlt := hpre x hx e List.mem_cons_self
      simp [OrientedCmp.gt_of_lt hlt]
    · simp [hpost x hx]
  rw [TreeMap.getElem?_erase]
  split_ifs with he
  · exact iff_of_false (fun hx => hkeys _ hx he) (by simp)
  · rw [← TreeMap.mem_toList_iff_getElem?_eq_some, h]
    have hne : (k, v) ≠ e := by
      rintro rfl
      exact he ReflCmp.compare_self
    simp [hne]

end Table

end OrderedTable
