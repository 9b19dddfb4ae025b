import ApiTree.Document.Validation
import ApiTree.Proofs.Text.Numeral

/-!
# The order of violations

The violations of a document are told in the order of the texts of the steps to their places. So
those in two elements of one list come in the order of the numerals of their positions as texts.
That is the order of the positions where the numerals have equally many digits, and in general it is
not: what is wrong with the eleventh element is told before what is wrong with the third
(`precede_reported_iff`).
-/

set_option autoImplicit false

namespace ApiTree

namespace Violation

/-- The texts of the steps to the place of the violation. -/
def texts (v : Violation) : List String := v.place.map (·.text)

theorem before_iff {v w : Violation} : before v w = true ↔ v.texts ≤ w.texts := by
  rw [before, Bool.not_eq_true', ← Bool.not_eq_true, List.lex_eq_true_iff_lt, not_lt]
  exact Iff.rfl

/-- The violation is at or below the element at the position of the list at the place. -/
def InElement (place : List Step) (position : Nat) (v : Violation) : Prop :=
  place ++ [.index position] <+: v.place

instance (place : List Step) (position : Nat) : DecidablePred (InElement place position) :=
  fun v => inferInstanceAs (Decidable (_ <+: v.place))

/-- Every violation in the one element stands before every violation in the other. -/
def Precede (place : List Step) (i j : Nat) (found : List Violation) : Prop :=
  ∀ (a b : Nat) (v w : Violation), found[a]? = some v → found[b]? = some w →
    InElement place i v → InElement place j w → a < b

section

variable {place : List Step} {i j : Nat} {v w : Violation}

theorem texts_of_inElement (h : InElement place i v) :
    ∃ rest, v.texts = place.map (·.text) ++ toString i :: rest := by
  obtain ⟨rest, hplace⟩ := h
  refine ⟨rest.map (·.text), ?_⟩
  rw [texts, ← hplace, List.map_append, List.map_append, List.append_assoc]
  rfl

/-- Two places below one list are in the order of the texts of the positions in it. -/
theorem texts_lt_of_inElement (hv : InElement place i v) (hw : InElement place j w)
    (h : toString i < toString j) : v.texts < w.texts := by
  obtain ⟨rest, hv⟩ := texts_of_inElement hv
  obtain ⟨rest', hw⟩ := texts_of_inElement hw
  rw [hv, hw]
  exact List.append_left_lt (List.cons_lt_cons_iff.mpr (.inl h))

variable {found : List Violation} (hsorted : found.Pairwise fun v w => v.texts ≤ w.texts)

include hsorted

theorem precede_of_text_lt (h : toString i < toString j) : Precede place i j found := by
  intro a b v w hv hw hin hin'
  have hlt := texts_lt_of_inElement hin hin' h
  by_contra hle
  rcases Nat.lt_or_eq_of_le (Nat.not_lt.mp hle) with hba | rfl
  · -- the list is sorted, so the violation that comes first has no greater texts
    obtain ⟨ha, rfl⟩ := List.getElem?_eq_some_iff.mp hv
    obtain ⟨hb, rfl⟩ := List.getElem?_eq_some_iff.mp hw
    exact absurd hlt (not_lt.mpr (List.pairwise_iff_getElem.mp hsorted b a hb ha hba))
  · obtain rfl := Option.some.inj (hv.symm.trans hw)
    exact lt_irrefl _ hlt

/-- The violations in two elements are in the order of the positions exactly if the texts of the
positions are, or nothing is wrong with one of the elements. -/
theorem precede_iff (hne : i ≠ j) :
    Precede place i j found ↔
      toString i < toString j ∨ (∀ v ∈ found, ¬ InElement place i v) ∨
        ∀ w ∈ found, ¬ InElement place j w := by
  constructor
  · intro hprecede
    by_contra hnone
    push Not at hnone
    obtain ⟨hle, ⟨v, hv, hin⟩, w, hw, hin'⟩ := hnone
    have htext : toString j ≠ toString i := fun heq => hne (Nat.repr_injective heq).symm
    obtain ⟨a, hv⟩ := List.mem_iff_getElem?.mp hv
    obtain ⟨b, hw⟩ := List.mem_iff_getElem?.mp hw
    have hba := precede_of_text_lt hsorted (lt_of_le_of_ne hle htext) b a w v hw hv hin' hin
    exact lt_asymm hba (hprecede a b v w hv hw hin hin')
  · rintro (hlt | hnone | hnone) a b v w hv hw hin hin'
    · exact precede_of_text_lt hsorted hlt a b v w hv hw hin hin'
    · exact absurd hin (hnone v (List.mem_of_getElem? hv))
    · exact absurd hin' (hnone w (List.mem_of_getElem? hw))

end

end Violation

namespace Document

open Violation

/-- The violations of a document whose messages are not excluded. -/
def reported (document : Value) (exclusions : List String) : List Violation :=
  (violations document).filter fun v => !exclusions.contains v.message

theorem validate_eq_map_reported (document : Value) (exclusions : List String) :
    validate document exclusions = (reported document exclusions).map (·.message) := by
  rw [validate, reported, List.filter_map]
  rfl

theorem pairwise_violations (document : Value) :
    (violations document).Pairwise fun v w => v.texts ≤ w.texts := by
  refine (List.pairwise_mergeSort ?_ ?_ _).imp before_iff.mp
  · intro u v w huv hvw
    exact before_iff.mpr ((before_iff.mp huv).trans (before_iff.mp hvw))
  · intro v w
    rw [Bool.or_eq_true, before_iff, before_iff]
    exact le_total v.texts w.texts

theorem pairwise_reported (document : Value) (exclusions : List String) :
    (reported document exclusions).Pairwise fun v w => v.texts ≤ w.texts :=
  (pairwise_violations document).filter _

theorem mem_reported {document : Value} {exclusions : List String} {v : Violation} :
    v ∈ reported document exclusions ↔
      v ∈ Schema.check OpenApi.definitions OpenApi.document document ∧ v.message ∉ exclusions := by
  rw [reported, List.mem_filter, violations, (List.mergeSort_perm _ _).mem_iff]
  simp

/-- The messages about two elements of a list are in the order of the positions exactly if the texts
of the positions are, or there are none about one of the elements. -/
theorem precede_reported_iff (document : Value) (exclusions : List String) (place : List Step)
    {i j : Nat} (h : i < j) :
    validate document exclusions = (reported document exclusions).map (·.message) ∧
    (Precede place i j (reported document exclusions) ↔
      toString i < toString j ∨ (∀ v ∈ reported document exclusions, ¬ InElement place i v) ∨
        ∀ w ∈ reported document exclusions, ¬ InElement place j w) ∧
    ((toString i).length = (toString j).length →
      Precede place i j (reported document exclusions)) := by
  have hsorted := pairwise_reported document exclusions
  refine ⟨validate_eq_map_reported document exclusions, precede_iff hsorted (Nat.ne_of_lt h), ?_⟩
  intro hlength
  exact precede_of_text_lt hsorted (Text.toString_lt_toString hlength h)

/-- A document with a list of eleven servers, none of which has an address. -/
def elevenServers : Value :=
  .map [(.str "openapi", .str "3.0.0"),
    (.str "info", .map [(.str "title", .str "T"), (.str "version", .str "1")]),
    (.str "paths", .map []), (.str "servers", .seq (List.replicate 11 (.map [])))]

/-- Each of the servers lacks its address, and nothing else is wrong. -/
theorem check_elevenServers :
    Schema.check OpenApi.definitions OpenApi.document elevenServers =
      (List.range 11).map fun n : Nat => ⟨[.key "servers", .index n], .missing "url"⟩ := by
  rfl

theorem exists_reported_elevenServers {n : Nat} (h : n < 11) :
    ∃ v ∈ reported elevenServers [], InElement [.key "servers"] n v := by
  have hmem : ⟨[.key "servers", .index n], .missing "url"⟩ ∈
      Schema.check OpenApi.definitions OpenApi.document elevenServers := by
    rw [check_elevenServers]
    exact List.mem_map.mpr ⟨n, List.mem_range.mpr h, rfl⟩
  exact ⟨_, mem_reported.mpr ⟨hmem, List.not_mem_nil⟩, List.prefix_rfl⟩

theorem precede_reported_iff_elevenServers :
    2 < 9 ∧ (toString 2).length = (toString 9).length ∧
    (∃ v ∈ reported elevenServers [], InElement [.key "servers"] 2 v) ∧
    (∃ w ∈ reported elevenServers [], InElement [.key "servers"] 9 w) ∧
    Precede [.key "servers"] 2 9 (reported elevenServers []) :=
  ⟨by decide, rfl, exists_reported_elevenServers (by decide),
    exists_reported_elevenServers (by decide),
    (precede_reported_iff elevenServers [] [.key "servers"] (i := 2) (j := 9) (by decide)).2.2 rfl⟩

/-- What is told about the eleventh server stands before what is told about the third. -/
theorem not_precede_elevenServers :
    2 < 10 ∧
    (∃ v ∈ reported elevenServers [], InElement [.key "servers"] 2 v) ∧
    (∃ w ∈ reported elevenServers [], InElement [.key "servers"] 10 w) ∧
    ¬ Precede [.key "servers"] 2 10 (reported elevenServers []) := by
  obtain ⟨v, hv, hin⟩ := exists_reported_elevenServers (show 2 < 11 by decide)
  obtain ⟨w, hw, hin'⟩ := exists_reported_elevenServers (show 10 < 11 by decide)
  refine ⟨by decide, ⟨v, hv, hin⟩, ⟨w, hw, hin'⟩, ?_⟩
  rw [precede_iff (pairwise_reported elevenServers []) (by decide)]
  rintro (hlt | hnone | hnone)
  · exact absurd hlt (by decide)
  · exact hnone v hv hin
  · exact hnone w hw hin'

end Document
end ApiTree
