import Mathlib

/-!
# Sorted lists

What is sorted by a text of it is in the order of these texts, and of two sorted lists that have the
same elements but one the longer has this one put in somewhere.
-/

set_option autoImplicit false

namespace ApiTree

variable {α : Type}

/-- Texts are put in the order of their characters. -/
theorem pairwise_mergeSort_by (text : α → String) (l : List α) :
    (l.mergeSort fun a b => text a ≤ text b).Pairwise fun a b => text a ≤ text b := by
  refine (List.pairwise_mergeSort ?_ ?_ l).imp fun h => of_decide_eq_true h
  · intro a b c hab hbc
    exact decide_eq_true (String.le_trans (of_decide_eq_true hab) (of_decide_eq_true hbc))
  · intro a b
    simp only [Bool.or_eq_true, decide_eq_true_eq]
    exact String.le_total (text a) (text b)

/-- Texts of which each is there once are put in strictly increasing order. -/
theorem pairwise_lt_mergeSort {l : List String} (h : l.Nodup) :
    (l.mergeSort (· ≤ ·)).Pairwise (· < ·) := by
  have hsorted := (pairwise_mergeSort_by (fun s => s) l).and
    ((List.mergeSort_perm _ _).nodup_iff.mpr h)
  refine hsorted.imp fun {a b} hab => ?_
  exact String.not_le.mp fun hba => hab.2 (String.le_antisymm hab.1 hba)

theorem exists_split_of_perm {r : α → α → Prop} {a : α} {l l' : List α}
    (hanti : ∀ x ∈ l', ∀ y ∈ l', r x y → r y x → x = y) (hl : l.Pairwise r)
    (hl' : l'.Pairwise r) (h : l'.Perm (a :: l)) :
    ∃ before after, l = before ++ after ∧ l' = before ++ a :: after := by
  obtain ⟨before, after, rfl⟩ := List.append_of_mem (h.mem_iff.mpr List.mem_cons_self)
  refine ⟨before, after, ?_, rfl⟩
  have hrest : (before ++ after).Perm l := (List.perm_middle.symm.trans h).cons_inv
  have hsub : (before ++ after).Sublist (before ++ a :: after) :=
    (List.sublist_cons_self a after).append_left before
  -- both are sorted, so that they are one list if no two elements are alike in the order
  refine (hrest.eq_of_pairwise (fun x y hx hy => ?_) (hl'.sublist hsub) hl).symm
  exact hanti x (hsub.subset hx) y (hsub.subset (hrest.mem_iff.mpr hy))

end ApiTree
