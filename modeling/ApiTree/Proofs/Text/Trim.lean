import ApiTree.Text.Blank
import Mathlib

/-!
# Trimming lists

What is left of a list when its ends are trimmed: the list itself when its end elements are to be
kept, and always every element that is to be kept.
-/

set_option autoImplicit false

namespace ApiTree.Text

variable {α : Type} {p : α → Bool}

theorem dropEndWhile_eq_rdropWhile (p : α → Bool) (xs : List α) :
    dropEndWhile p xs = xs.rdropWhile p := rfl

/-- The last element of a list that is trimmed at its end is kept. -/
theorem getLast?_dropEndWhile {xs : List α} {a : α} (h : (dropEndWhile p xs).getLast? = some a) :
    p a = false := by
  rw [dropEndWhile_eq_rdropWhile] at h
  have hne : xs.rdropWhile p ≠ [] := fun hnil => by rw [hnil] at h; cases h
  rw [List.getLast?_eq_some_getLast hne, Option.some.injEq] at h
  rw [← h]
  exact Bool.eq_false_iff.mpr (List.rdropWhile_last_not p xs hne)

/-- The first element of a trimmed list is kept. -/
theorem head?_trimWhile {xs : List α} {a : α} (h : (trimWhile p xs).head? = some a) :
    p a = false := by
  obtain ⟨t, ht⟩ := List.rdropWhile_prefix p (xs.dropWhile p)
  rw [trimWhile, dropEndWhile_eq_rdropWhile] at h
  have hfirst : (xs.dropWhile p).head? = some a := by
    rw [← ht, List.head?_append, h]
    rfl
  have := List.head?_dropWhile_not p xs
  rw [hfirst] at this
  exact this

/-- A list of which the last element is kept is not trimmed at its end. -/
theorem dropEndWhile_eq_self {xs : List α} (h : ∀ a, xs.getLast? = some a → p a = false) :
    dropEndWhile p xs = xs := by
  rw [dropEndWhile_eq_rdropWhile, List.rdropWhile_eq_self_iff]
  intro hne
  rw [h _ (List.getLast?_eq_some_getLast hne)]
  exact Bool.false_ne_true

theorem dropWhile_eq_self {xs : List α} (h : ∀ a, xs.head? = some a → p a = false) :
    xs.dropWhile p = xs := by
  cases xs with
  | nil => rfl
  | cons a xs => exact List.dropWhile_cons_of_neg (by simp [h a rfl])

/-- A first element that is kept is kept whatever follows it. -/
theorem dropEndWhile_cons_of_neg {a : α} (ha : p a = false) (xs : List α) :
    dropEndWhile p (a :: xs) = a :: dropEndWhile p xs := by
  rw [dropEndWhile, dropEndWhile, List.reverse_cons, List.dropWhile_append]
  cases hxs : xs.reverse.dropWhile p with
  | nil => simp [ha]
  | cons b bs => simp

/-- A first element is kept if something that follows it is. -/
theorem dropEndWhile_cons_of_ne_nil {xs : List α} (h : dropEndWhile p xs ≠ []) (a : α) :
    dropEndWhile p (a :: xs) = a :: dropEndWhile p xs := by
  rw [dropEndWhile] at h
  rw [dropEndWhile, dropEndWhile, List.reverse_cons, List.dropWhile_append]
  cases hxs : xs.reverse.dropWhile p with
  | nil => exact absurd (by rw [hxs]; rfl) h
  | cons b bs => simp

theorem countP_dropWhile {q : α → Bool} (hpq : ∀ x, p x = true → q x = false) (xs : List α) :
    (xs.dropWhile p).countP q = xs.countP q := by
  have hzero : (xs.takeWhile p).countP q = 0 :=
    List.countP_eq_zero.mpr fun x hx => by simp [hpq x (List.mem_takeWhile_imp hx)]
  have hcount := congrArg (List.countP q) (List.takeWhile_append_dropWhile (p := p) (l := xs))
  rw [List.countP_append, hzero, Nat.zero_add] at hcount
  exact hcount

/-- Trimming keeps every element that is to be kept. -/
theorem countP_trimWhile {q : α → Bool} (hpq : ∀ x, p x = true → q x = false) (xs : List α) :
    (trimWhile p xs).countP q = xs.countP q := by
  have hreverse (ys : List α) : ys.reverse.countP q = ys.countP q :=
    (List.reverse_perm ys).countP_eq q
  rw [trimWhile, dropEndWhile, hreverse, countP_dropWhile hpq, hreverse, countP_dropWhile hpq]

/-! ## Cutting at the last separator -/

/-- What follows the last element that is to be kept. -/
theorem takeWhile_reverse_append_cons {s : α} (hs : p s = false) (xs : List α) {ys : List α}
    (hys : ∀ y ∈ ys, p y = true) : ((xs ++ s :: ys).reverse.takeWhile p).reverse = ys := by
  have hpos : ∀ y ∈ ys.reverse, p y = true := fun y hy => hys y (List.mem_reverse.mp hy)
  rw [List.reverse_append, List.reverse_cons, List.append_assoc, List.singleton_append,
    List.takeWhile_append_of_pos hpos, List.takeWhile_cons_of_neg (by simp [hs]),
    List.append_nil, List.reverse_reverse]

/-- A list is trimmed to the last element that is to be kept. -/
theorem dropEndWhile_append_cons {s : α} (hs : p s = false) (xs : List α) {ys : List α}
    (hys : ∀ y ∈ ys, p y = true) : dropEndWhile p (xs ++ s :: ys) = xs ++ [s] := by
  have hpos : ∀ y ∈ ys.reverse, p y = true := fun y hy => hys y (List.mem_reverse.mp hy)
  rw [dropEndWhile, List.reverse_append, List.reverse_cons, List.append_assoc,
    List.singleton_append, List.dropWhile_append_of_pos hpos,
    List.dropWhile_cons_of_neg (by simp [hs]), List.reverse_cons, List.reverse_reverse]

/-- A list is cut at a separator after which there is none. -/
theorem splitLast_append_cons {s : α} (hs : p s = true) (xs : List α) {ys : List α}
    (hys : ∀ y ∈ ys, p y = false) : splitLast p (xs ++ s :: ys) = (xs, ys) := by
  have hafter : ((xs ++ s :: ys).reverse.takeWhile (!p ·)).reverse = ys :=
    takeWhile_reverse_append_cons (by simp [hs]) xs fun y hy => by simp [hys y hy]
  have hlength : (xs ++ s :: ys).length - ys.length - 1 = xs.length := by
    rw [List.length_append, List.length_cons]
    omega
  rw [splitLast, hafter, hlength, List.take_left]

end ApiTree.Text
