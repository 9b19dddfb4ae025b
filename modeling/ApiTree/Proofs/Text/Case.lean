import ApiTree.Text.Case
import Mathlib

/-!
# Lower case

Lowering a text never makes it shorter, makes no slash out of another character, and lowers what
stands before a slash as it lowers it alone: a slash ends a word as the end of the text does. Texts of
ASCII characters that differ in the case of letters at most have one lower-case form.
-/

set_option autoImplicit false

namespace ApiTree.Text

open Table

/-! ## Single characters -/

set_option maxRecDepth 4000 in
theorem lowerRuns_above_slash :
    lowerRuns.all (fun r => decide ((48 : Int) ≤ r.first + r.shift)) = true := by
  decide

theorem shifted_lowerRuns_above_slash {code : Nat} (h : 48 ≤ code) :
    48 ≤ shifted lowerRuns code := by
  rw [shifted]
  cases hfind : lowerRuns.find? (·.covers code) with
  | none => exact h
  | some r =>
    have hr := of_decide_eq_true
      (List.all_eq_true.mp lowerRuns_above_slash r (List.mem_of_find?_eq_some hfind))
    have hcovers := List.find?_some hfind
    simp only [CaseRun.covers, Bool.and_eq_true, decide_eq_true_eq] at hcovers
    simp only
    omega

theorem ofNat_ne_slash {code : Nat} (h : 48 ≤ code) : Char.ofNat code ≠ '/' := by
  rw [Char.ofNat]
  split
  · intro hslash
    have hcode : code = 47 := congrArg Char.toNat hslash
    omega
  · decide

/-- Lowering a character changes capital ASCII letters only, to the letters 32 places above. -/
theorem toLower_cases (c : Char) :
    c.toLower = c ∨ 65 ≤ c.toNat ∧ c.toNat ≤ 90 ∧ c.toLower.toNat = c.toNat + 32 := by
  rw [Char.toLower]
  split
  · next hupper =>
    have hlow : 65 ≤ c.val.toNat := hupper.1
    have hhigh : c.val.toNat ≤ 90 := hupper.2
    refine .inr ⟨hlow, hhigh, ?_⟩
    have hshift : (('a'.val - 'A'.val : UInt32)).toNat = 32 := rfl
    have hsum := UInt32.toNat_add c.val ('a'.val - 'A'.val)
    rw [hshift] at hsum
    exact hsum.trans (Nat.mod_eq_of_lt (by omega))
  · exact .inl rfl

/-- What is so of a capital ASCII letter and of the small one alike is not changed by lowering. -/
theorem iff_toLower {P : Char → Prop} (hP : ∀ c : Char, 65 ≤ c.toNat → c.toNat ≤ 122 → P c)
    (c : Char) : P c.toLower ↔ P c := by
  rcases toLower_cases c with heq | ⟨hlow, hhigh, hlower⟩
  · rw [heq]
  · exact iff_of_true (hP _ (by omega) (by omega)) (hP c hlow (by omega))

theorem toLower_eq_slash_iff (c : Char) : c.toLower = '/' ↔ c = '/' := by
  refine not_iff_not.mp (iff_toLower (P := (· ≠ '/')) (fun c hlow _ hslash => ?_) c)
  rw [hslash] at hlow
  exact absurd hlow (by decide)

theorem lowerChar_length_pos (c : Char) : 0 < (lowerChar c).length := by
  rw [lowerChar]
  split
  · simp
  · split <;> simp

/-- Only the slash has a lower-case form that starts with a slash. -/
theorem head?_lowerChar_slash {c : Char} (h : (lowerChar c).head? = some '/') : c = '/' := by
  rw [lowerChar] at h
  split at h
  -- ASCII: only capital letters change, and they become small ones, which lie above the slash
  · exact (toLower_eq_slash_iff c).mp (Option.some.inj h)
  -- the dotted capital I is lowered to two characters; all others go through the table
  · split at h
    · simp at h
    · simp only [List.head?_cons, Option.some.injEq] at h
      exact absurd h (ofNat_ne_slash (shifted_lowerRuns_above_slash (by omega)))

/-! ## Texts -/

/-- The length of a lowered text is that of its lowered characters. -/
theorem length_lowerAfter (before cs : List Char) :
    (lowerAfter before cs).length = (cs.map fun c => (lowerChar c).length).sum := by
  induction cs generalizing before with
  | nil => rfl
  | cons c cs ih =>
    rw [lowerAfter, List.length_append, ih, List.map_cons, List.sum_cons]
    -- a capital sigma is one letter in either of its small forms
    by_cases hc : c.toNat = 0x3A3
    · have hone : (lowerChar c).length = 1 := by simp [lowerChar, hc]
      rw [if_pos hc, hone]
      rfl
    · rw [if_neg hc]

theorem length_le_length_lowerAfter (before cs : List Char) :
    cs.length ≤ (lowerAfter before cs).length := by
  rw [length_lowerAfter]
  induction cs with
  | nil => exact Nat.zero_le _
  | cons c cs ih =>
    have := lowerChar_length_pos c
    rw [List.map_cons, List.sum_cons, List.length_cons]
    omega

theorem length_lowerAfter_append (before before' as bs : List Char) :
    (lowerAfter before as).length + bs.length ≤ (lowerAfter before' (as ++ bs)).length := by
  have := length_le_length_lowerAfter [] bs
  rw [length_lowerAfter] at this
  rw [length_lowerAfter, length_lowerAfter, List.map_append, List.sum_append]
  omega

theorem lowerAfter_slash_cons (before cs : List Char) :
    lowerAfter before ('/' :: cs) = '/' :: lowerAfter ('/' :: before) cs := rfl

theorem head?_lowerAfter_slash {before cs : List Char}
    (h : (lowerAfter before cs).head? = some '/') : cs.head? = some '/' := by
  cases cs with
  | nil => exact h
  | cons c cs =>
    rw [lowerAfter] at h
    by_cases hc : c.toNat = 0x3A3
    · rw [if_pos hc, List.singleton_append, List.head?_cons, Option.some.injEq] at h
      split at h <;> exact absurd h (by decide)
    · rw [if_neg hc] at h
      cases hlower : lowerChar c with
      | nil => exact absurd (lowerChar_length_pos c) (by rw [hlower]; exact Nat.lt_irrefl 0)
      | cons d ds =>
        rw [hlower, List.cons_append, List.head?_cons] at h
        have hslash : c = '/' := head?_lowerChar_slash (by rw [hlower, List.head?_cons, h])
        rw [hslash, List.head?_cons]

/-- What follows a slash does not make a word before it go on. -/
theorem meetsCased_append_slash (cs rest : List Char) :
    meetsCased (cs ++ '/' :: rest) = meetsCased cs := by
  induction cs with
  | nil => rfl
  | cons c cs ih =>
    unfold meetsCased at ih ⊢
    rw [List.cons_append, List.dropWhile_cons, List.dropWhile_cons]
    -- the search for a cased letter skips ignorable ones; the slash is neither
    by_cases hc : Table.contains caseIgnorable c.toNat = true
    · rw [if_pos hc, if_pos hc]
      exact ih
    · rw [if_neg hc, if_neg hc]

/-- What stands before a slash is lowered as it is alone. -/
theorem lowerAfter_append_slash (before cs rest : List Char) :
    lowerAfter before (cs ++ '/' :: rest) =
      lowerAfter before cs ++ '/' :: lowerAfter ('/' :: (cs.reverse ++ before)) rest := by
  induction cs generalizing before with
  | nil => rfl
  | cons c cs ih =>
    rw [List.cons_append, lowerAfter, lowerAfter, meetsCased_append_slash, ih, List.append_assoc,
      List.reverse_cons, List.append_assoc]
    rfl

/-! ## ASCII texts -/

/-- The text holds ASCII characters only. -/
def IsAscii (s : String) : Prop := ∀ c ∈ s.toList, c.toNat < 128

instance (s : String) : Decidable (IsAscii s) :=
  List.decidableBAll (fun c : Char => c.toNat < 128) s.toList

/-- The texts differ at most in the case of ASCII letters. -/
def SameLetters (s t : String) : Prop := s.toList.map Char.toLower = t.toList.map Char.toLower

instance (s t : String) : Decidable (SameLetters s t) :=
  inferInstanceAs (Decidable (s.toList.map Char.toLower = t.toList.map Char.toLower))

theorem lowerAfter_of_ascii {cs : List Char} (h : ∀ c ∈ cs, c.toNat < 128) (before : List Char) :
    lowerAfter before cs = cs.map Char.toLower := by
  induction cs generalizing before with
  | nil => rfl
  | cons c cs ih =>
    rw [List.forall_mem_cons] at h
    rw [lowerAfter, if_neg (by omega), lowerChar, if_pos h.1, ih h.2]
    rfl

theorem SameLetters.length_eq {s t : String} (h : SameLetters s t) :
    s.toList.length = t.toList.length := by
  simpa using congrArg List.length h

/-- What is so of every ASCII letter holds of all characters of a text in each of its spellings. -/
theorem SameLetters.forall_mem {s t : String} (h : SameLetters s t) {P : Char → Prop}
    (hP : ∀ c : Char, 65 ≤ c.toNat → c.toNat ≤ 122 → P c) (ht : ∀ c ∈ t.toList, P c) :
    ∀ c ∈ s.toList, P c := by
  have hlower (cs : List Char) : (∀ c ∈ cs.map Char.toLower, P c) ↔ ∀ c ∈ cs, P c := by
    rw [List.forall_mem_map]
    exact forall₂_congr fun c _ => iff_toLower hP c
  rw [← hlower, h, hlower]
  exact ht

theorem SameLetters.isAscii {s t : String} (h : SameLetters s t) (ht : IsAscii t) : IsAscii s :=
  h.forall_mem (fun _ _ _ => by omega) ht

/-- ASCII texts that differ in case at most have one lower-case form. -/
theorem SameLetters.lower_eq {s t : String} (h : SameLetters s t) (ht : IsAscii t) :
    lower s = lower t := by
  rw [lower, lower, lowerAfter_of_ascii (h.isAscii ht), lowerAfter_of_ascii ht, h]

end ApiTree.Text
