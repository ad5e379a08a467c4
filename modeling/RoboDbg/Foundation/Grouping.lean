import Mathlib.Data.List.Induction
import Mathlib.Data.List.Nodup

/-!
# Records and their keys

A scan over a list of records may keep one record of each key, look for the only record
that passes a test, or take the records key by key. Keys may repeat in any order.
-/

namespace Grouping

variable {α β κ : Type*}

/-! ## The records that pass -/

def collect (p : α → Bool) (f : α → β) (l : List α) : List β :=
  l.foldl (fun out a => if p a then out ++ [f a] else out) []

theorem collect_eq (p : α → Bool) (f : α → β) (l : List α) :
    collect p f l = (l.filter p).map f := by
  induction l using List.reverseRecOn with
  | nil => rfl
  | append_singleton l a ih =>
    rw [collect, List.foldl_concat, ← collect, ih, List.filter_append, List.map_append]
    by_cases ha : p a
    · simp [ha]
    · simp [ha]

/-! ## The first record of each key -/

section Firsts

variable (key : α → κ)

/-- One pass of the scan, on the keys seen so far and what is kept of their records. -/
def keepFirst [DecidableEq κ] (f : α → β) (s : List κ × List β) (a : α) : List κ × List β :=
  if key a ∈ s.1 then s else (key a :: s.1, s.2 ++ [f a])

structure Firsts (l kept : List α) : Prop where
  nodup : (kept.map key).Nodup
  first : ∀ a ∈ kept, ∃ before after, l = before ++ a :: after ∧ ∀ x ∈ before, key x ≠ key a
  complete : ∀ a ∈ l, key a ∈ kept.map key

namespace Firsts

variable {key} {l kept : List α}

theorem mem_keys (h : Firsts key l kept) {c : κ} : c ∈ kept.map key ↔ c ∈ l.map key := by
  constructor
  · intro hc
    obtain ⟨a, ha, rfl⟩ := List.mem_map.mp hc
    obtain ⟨before, after, rfl, -⟩ := h.first a ha
    exact List.mem_map_of_mem (List.mem_append_right _ List.mem_cons_self)
  · intro hc
    obtain ⟨a, ha, rfl⟩ := List.mem_map.mp hc
    exact h.complete a ha

theorem first_append (h : Firsts key l kept) (l' : List α) :
    ∀ a ∈ kept, ∃ before after, l ++ l' = before ++ a :: after ∧ ∀ x ∈ before, key x ≠ key a := by
  intro a ha
  obtain ⟨before, after, rfl, hbefore⟩ := h.first a ha
  exact ⟨before, after ++ l', by rw [List.append_assoc, List.cons_append], hbefore⟩

theorem append_seen (h : Firsts key l kept) {a : α} (ha : key a ∈ kept.map key) :
    Firsts key (l ++ [a]) kept where
  nodup := h.nodup
  first := h.first_append [a]
  complete x hx := by
    rcases List.mem_append.mp hx with hx | hx
    · exact h.complete x hx
    · rwa [List.mem_singleton.mp hx]

theorem append_new (h : Firsts key l kept) {a : α} (ha : key a ∉ kept.map key) :
    Firsts key (l ++ [a]) (kept ++ [a]) where
  nodup := by
    rw [List.map_append, List.map_singleton]
    exact h.nodup.append (List.nodup_singleton _) (List.disjoint_singleton.mpr ha)
  first x hx := by
    rcases List.mem_append.mp hx with hx | hx
    · exact h.first_append [a] x hx
    · obtain rfl := List.mem_singleton.mp hx
      refine ⟨l, [], rfl, fun y hy he => ha ?_⟩
      rw [← he]
      exact h.complete y hy
  complete x hx := by
    rw [List.map_append]
    rcases List.mem_append.mp hx with hx | hx
    · exact List.mem_append_left _ (h.complete x hx)
    · exact List.mem_append_right _ (List.mem_map_of_mem hx)

end Firsts

theorem foldl_keepFirst [DecidableEq κ] (f : α → β) (l : List α) : ∃ kept, Firsts key l kept ∧
    l.foldl (keepFirst key f) ([], []) = ((kept.map key).reverse, kept.map f) := by
  induction l using List.reverseRecOn with
  | nil => exact ⟨[], ⟨List.nodup_nil, by simp, by simp⟩, rfl⟩
  | append_singleton l a ih =>
    obtain ⟨kept, hfirsts, hloop⟩ := ih
    rw [List.foldl_concat, hloop]
    by_cases ha : key a ∈ kept.map key
    · exact ⟨kept, hfirsts.append_seen ha, if_pos (List.mem_reverse.mpr ha)⟩
    · refine ⟨kept ++ [a], hfirsts.append_new ha, ?_⟩
      rw [keepFirst, if_neg (fun hmem => ha (List.mem_reverse.mp hmem))]
      simp

end Firsts

/-! ## Sorting by the key -/

section Sorted

variable [LE κ] (key : β → κ)

def sortByKey [DecidableLE κ] (l : List β) : List β := l.mergeSort (fun a b => key a ≤ key b)

theorem sortByKey_perm [DecidableLE κ] (l : List β) : (sortByKey key l).Perm l :=
  List.mergeSort_perm l _

theorem pairwise_sortByKey [DecidableLE κ] [Std.IsLinearOrder κ] (l : List β) :
    (sortByKey key l).Pairwise (fun a b => key a ≤ key b) := by
  have hsorted : (sortByKey key l).Pairwise (fun a b => decide (key a ≤ key b) = true) := by
    apply List.pairwise_mergeSort
    · intro a b c hab hbc
      rw [decide_eq_true_eq] at hab hbc ⊢
      exact Std.le_trans hab hbc
    · intro a b
      rw [Bool.or_eq_true, decide_eq_true_eq, decide_eq_true_eq]
      exact Std.le_total
  exact hsorted.imp (fun hab => of_decide_eq_true hab)

variable {key} [LT κ] [Std.LawfulOrderLT κ]

theorem pairwise_lt_sortByKey [DecidableLE κ] [Std.IsLinearOrder κ] {l : List β}
    (h : (l.map key).Nodup) :
    ((sortByKey key l).map key).Pairwise (· < ·) := by
  have hne := ((sortByKey_perm key l).map key).nodup_iff.mpr h
  rw [List.Nodup, List.pairwise_map] at hne
  rw [List.pairwise_map]
  refine List.Pairwise.imp (fun hab => ?_) ((pairwise_sortByKey key l).and hne)
  exact Std.lt_of_le_of_ne hab.1 hab.2

/-- Whatever the algorithm, there is one way to sort records by keys that do not repeat. -/
theorem eq_of_perm_of_pairwise_le [Std.IsPartialOrder κ] {l l' : List β} (hperm : l.Perm l')
    (h : (l.map key).Pairwise (· ≤ ·)) (h' : (l'.map key).Pairwise (· < ·)) : l = l' := by
  have hne : (l.map key).Nodup := by
    rw [(hperm.map key).nodup_iff]
    apply h'.imp
    rintro a b hab rfl
    exact Std.lt_irrefl hab
  have hlt : (l.map key).Pairwise (· < ·) :=
    (h.and hne).imp (fun hab => Std.lt_of_le_of_ne hab.1 hab.2)
  rw [List.pairwise_map] at hlt h'
  apply List.Perm.eq_of_pairwise _ hlt h' hperm
  intro a b _ _ hab hba
  exact absurd hba (Std.not_gt_of_lt hab)

end Sorted

/-! ## The records key by key -/

theorem perm_flatMap_filter [DecidableEq κ] (key : α → κ) {l : List α} {ks : List κ}
    (hnodup : ks.Nodup) :
    (ks.flatMap (fun c => l.filter (fun a => key a = c))).Perm
      (l.filter (fun a => key a ∈ ks)) := by
  induction ks with
  | nil => simp
  | cons c ks ih =>
    obtain ⟨hc, hks⟩ := List.nodup_cons.mp hnodup
    have hhead : (l.filter (fun a => key a ∈ c :: ks)).filter (fun a => key a = c) =
        l.filter (fun a => key a = c) := by
      rw [List.filter_filter]
      refine List.filter_congr (fun a _ => ?_)
      by_cases he : key a = c
      · simp [he]
      · simp [he]
    have htail : (l.filter (fun a => key a ∈ c :: ks)).filter (fun a => !decide (key a = c)) =
        l.filter (fun a => key a ∈ ks) := by
      rw [List.filter_filter]
      refine List.filter_congr (fun a _ => ?_)
      by_cases he : key a = c
      · simp [he, hc]
      · simp [he]
    have hsplit := List.filter_append_perm (fun a => decide (key a = c))
      (l.filter (fun a => key a ∈ c :: ks))
    rw [hhead, htail] at hsplit
    rw [List.flatMap_cons]
    exact ((ih hks).append_left _).trans hsplit

/-! ## The only record that passes -/

section Only

variable (p : α → Bool)

/-- The scan for the only record that passes, with the one found so far; a second one
ends it without a result. -/
def only : Option α → List α → Option α
  | hit, [] => hit
  | hit, a :: l =>
    if ¬ p a then only hit l
    else if hit.isSome then none
    else only (some a) l

variable {p}

theorem only_some {hit : α} {l : List α} :
    only p (some hit) l = if l.filter p = [] then some hit else none := by
  induction l with
  | nil => rfl
  | cons a l ih =>
    by_cases ha : p a
    · simp [only, ha]
    · simp [only, ha, ih]

theorem only_none_eq_some_iff {l : List α} {a : α} :
    only p none l = some a ↔ l.filter p = [a] := by
  induction l with
  | nil => simp [only]
  | cons b l ih =>
    by_cases hb : p b
    · simp [only, hb, only_some, and_comm]
    · simp [only, hb, ih]

/-- One place of the list holds the record, and no other place one that passes. -/
theorem filter_eq_singleton_iff {l : List α} {a : α} :
    l.filter p = [a] ↔ ∃ before after, l = before ++ a :: after ∧ p a = true ∧
      ∀ x ∈ before ++ after, ¬ p x = true := by
  rw [List.filter_eq_cons_iff]
  refine exists₂_congr (fun before after => and_congr_right (fun _ => ?_))
  rw [List.filter_eq_nil_iff, List.forall_mem_append]
  exact and_left_comm

end Only

end Grouping
