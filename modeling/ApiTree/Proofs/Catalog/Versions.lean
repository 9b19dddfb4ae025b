import ApiTree.Catalog.Table
import ApiTree.Proofs.Sorted

/-!
# The versions of a table

The versions of a table but the draft are in strictly increasing order, and are the tokens under
which the table has some fragment.
-/

set_option autoImplicit false

namespace ApiTree

theorem nodup_eraseDups {α : Type} [BEq α] [LawfulBEq α] (l : List α) :
    l.eraseDups.Nodup := by
  induction hn : l.length using Nat.strongRecOn generalizing l with
  | ind n ih =>
    -- `eraseDups` goes on with what is left after filtering, so the induction is on the length
    cases l with
    | nil => exact List.nodup_nil
    | cons a l =>
      rw [List.eraseDups_cons, List.nodup_cons]
      refine ⟨fun ha => ?_, ih _ ?_ _ rfl⟩
      · have := (List.mem_filter.mp (List.mem_eraseDups.mp ha)).2
        simp at this
      · have := List.length_filter_le (fun b => !b == a) l
        rw [List.length_cons] at hn
        omega

namespace OperationTable

variable (table : OperationTable)

theorem mem_datedVersions (v : String) :
    v ∈ table.datedVersions ↔ v ≠ draft ∧ ∃ e ∈ table, v ∈ Entries.keys e.2 := by
  simp only [datedVersions, List.mem_mergeSort, List.mem_eraseDups, List.mem_filter,
    List.mem_flatMap, decide_eq_true_eq]
  exact and_comm

/-- The versions but the draft are in strictly increasing order. -/
theorem pairwise_datedVersions : table.datedVersions.Pairwise (· < ·) :=
  pairwise_lt_mergeSort (nodup_eraseDups _)

end OperationTable
end ApiTree
