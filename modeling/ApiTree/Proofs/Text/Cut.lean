import ApiTree.Text.Blank
import Mathlib

/-!
# Cutting lists

What the functions of `ApiTree.Text.Blank` give: pieces between separators, the piece after the last
separator, and what is left when the ends are cut.
-/

set_option autoImplicit false

namespace ApiTree.Text

variable {α : Type}

/-! ## Pieces between separators -/

theorem splitWhere_ne_nil (p : α → Bool) (xs : List α) : splitWhere p xs ≠ [] := by
  cases xs with
  | nil => simp [splitWhere]
  | cons x xs =>
    unfold splitWhere
    split
    · simp
    · split <;> simp

/-- The first piece starts as the list does, unless it is empty. -/
theorem head?_of_splitWhere {p : α → Bool} {xs piece : List α} {pieces : List (List α)}
    (h : splitWhere p xs = piece :: pieces) : piece = [] ∨ piece.head? = xs.head? := by
  cases xs with
  | nil => exact .inl (List.cons.inj h).1.symm
  | cons x xs =>
    rw [splitWhere] at h
    split at h
    · exact .inl (List.cons.inj h).1.symm
    · split at h
      · exact .inr (by rw [← (List.cons.inj h).1]; rfl)
      · exact .inr (by rw [← (List.cons.inj h).1]; rfl)

/-- No piece holds a separator. -/
theorem forall_not_of_mem_splitWhere {p : α → Bool} {xs piece : List α}
    (h : piece ∈ splitWhere p xs) : ∀ x ∈ piece, p x = false := by
  induction xs generalizing piece with
  | nil =>
    obtain rfl := List.mem_singleton.mp h
    exact fun x hx => absurd hx List.not_mem_nil
  | cons y ys ih =>
    rw [splitWhere] at h
    by_cases hy : p y = true
    · rw [if_pos hy, List.mem_cons] at h
      rcases h with rfl | h
      · exact fun x hx => absurd hx List.not_mem_nil
      · exact ih h
    · rw [if_neg hy] at h
      cases hp : splitWhere p ys with
      | nil => exact absurd hp (splitWhere_ne_nil p ys)
      | cons q qs =>
        rw [hp] at h ih
        rcases List.mem_cons.mp h with rfl | h
        · intro x hx
          rcases List.mem_cons.mp hx with rfl | hx
          · exact Bool.eq_false_iff.mpr hy
          · exact ih List.mem_cons_self x hx
        · exact ih (List.mem_cons_of_mem q h)

/-- A list without separators is its only piece. -/
theorem splitWhere_of_forall_not {p : α → Bool} {xs : List α} (h : ∀ x ∈ xs, p x = false) :
    splitWhere p xs = [xs] := by
  induction xs with
  | nil => rfl
  | cons x xs ih =>
    have hx : p x = false := h x List.mem_cons_self
    rw [splitWhere, ih fun y hy => h y (List.mem_cons_of_mem _ hy)]
    simp [hx]

/-- The pieces around a separator are those before it and those after it. -/
theorem splitWhere_append_cons {p : α → Bool} {s : α} (hs : p s = true) (xs ys : List α) :
    splitWhere p (xs ++ s :: ys) = splitWhere p xs ++ splitWhere p ys := by
  induction xs with
  | nil => simp [splitWhere, hs]
  | cons x xs ih =>
    rw [List.cons_append, splitWhere, splitWhere, ih]
    by_cases hx : p x = true
    · simp [hx]
    · cases h : splitWhere p xs with
      | nil => exact absurd h (splitWhere_ne_nil p xs)
      | cons piece pieces => simp [hx]

/-- What holds no separator is added to the last piece. -/
theorem exists_splitWhere_append {p : α → Bool} {ys : List α} (h : ∀ y ∈ ys, p y = false)
    (xs : List α) :
    ∃ before last, splitWhere p (xs ++ ys) = before ++ [last ++ ys] := by
  induction xs with
  | nil => exact ⟨[], [], splitWhere_of_forall_not h⟩
  | cons x xs ih =>
    obtain ⟨before, last, heq⟩ := ih
    rw [List.cons_append, splitWhere, heq]
    by_cases hx : p x = true
    · exact ⟨[] :: before, last, by simp [hx]⟩
    · cases before with
      | nil => exact ⟨[], x :: last, by simp [hx]⟩
      | cons piece pieces => exact ⟨(x :: piece) :: pieces, last, by simp [hx]⟩

/-- Texts with slashes between them are cut into the texts, if none of them holds a slash. -/
theorem splitWhere_intercalate {texts : List String} (hne : texts ≠ [])
    (h : ∀ s ∈ texts, '/' ∉ s.toList) :
    splitWhere (· == '/') (String.intercalate "/" texts).toList = texts.map String.toList := by
  induction texts with
  | nil => exact absurd rfl hne
  | cons s texts ih =>
    have hs : ∀ c ∈ s.toList, (c == '/') = false := by
      intro c hc
      rw [beq_eq_false_iff_ne]
      rintro rfl
      exact h s List.mem_cons_self hc
    cases texts with
    | nil =>
      rw [String.intercalate_singleton]
      exact splitWhere_of_forall_not hs
    | cons t texts =>
      have hlist : (String.intercalate "/" (s :: t :: texts)).toList =
          s.toList ++ '/' :: (String.intercalate "/" (t :: texts)).toList := by
        rw [String.intercalate_cons_cons, String.toList_append, String.toList_append,
          List.append_assoc]
        rfl
      rw [hlist, splitWhere_append_cons (by rfl), splitWhere_of_forall_not hs,
        ih (List.cons_ne_nil t texts) fun u hu => h u (List.mem_cons_of_mem s hu)]
      rfl

theorem eq_of_splitWhere_singleton {p : α → Bool} {xs piece : List α}
    (h : splitWhere p xs = [piece]) : xs = piece := by
  induction xs generalizing piece with
  | nil => simpa [splitWhere] using h
  | cons x xs ih =>
    rw [splitWhere] at h
    cases hp : splitWhere p xs with
    | nil => exact absurd hp (splitWhere_ne_nil p xs)
    | cons q qs =>
      rw [hp] at h
      by_cases hx : p x = true
      · simp [hx] at h
      · obtain ⟨rfl, rfl⟩ : x :: q = piece ∧ qs = [] := by simpa [hx] using h
        rw [ih hp]

/-- The last of several pieces follows a separator, and the others are the pieces before it. -/
theorem exists_of_splitWhere_concat {p : α → Bool} {xs last : List α} {before : List (List α)}
    (hb : before ≠ []) (h : splitWhere p xs = before ++ [last]) :
    ∃ ys s, p s = true ∧ xs = ys ++ s :: last ∧ splitWhere p ys = before := by
  induction xs generalizing before with
  | nil =>
    have hl := congrArg List.length h
    cases before with
    | nil => exact absurd rfl hb
    | cons b bs => simp [splitWhere] at hl
  | cons x xs ih =>
    rw [splitWhere] at h
    -- the head is a piece of its own after which `before` may be used up, or it joins the first
    by_cases hx : p x = true
    · rw [if_pos hx] at h
      cases before with
      | nil => exact absurd rfl hb
      | cons b bs =>
        obtain ⟨rfl, hxs⟩ : [] = b ∧ splitWhere p xs = bs ++ [last] := by simpa using h
        cases bs with
        | nil =>
          have hlast : splitWhere p xs = [last] := by simpa using hxs
          exact ⟨[], x, hx, by rw [eq_of_splitWhere_singleton hlast]; rfl, rfl⟩
        | cons c cs =>
          obtain ⟨ys, s, hs, rfl, hys⟩ := ih (List.cons_ne_nil c cs) hxs
          exact ⟨x :: ys, s, hs, rfl, by rw [splitWhere, if_pos hx, hys]⟩
    · rw [if_neg hx] at h
      cases hp : splitWhere p xs with
      | nil => exact absurd hp (splitWhere_ne_nil p xs)
      | cons piece pieces =>
        rw [hp] at h
        cases before with
        | nil => exact absurd rfl hb
        | cons b bs =>
          obtain ⟨rfl, hps⟩ : x :: piece = b ∧ pieces = bs ++ [last] := by simpa using h
          have hxs : splitWhere p xs = (piece :: bs) ++ [last] := by rw [hp, hps]; rfl
          obtain ⟨ys, s, hs, rfl, hys⟩ := ih (List.cons_ne_nil piece bs) hxs
          exact ⟨x :: ys, s, hs, rfl, by rw [splitWhere, if_neg hx, hys]⟩

end ApiTree.Text
