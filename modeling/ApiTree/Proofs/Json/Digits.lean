import ApiTree.Json.Reader
import ApiTree.Proofs.Except
import Mathlib

/-!
# Integers that are too long

A JSON text is read unless it is malformed or the reader comes to an integer with more digits than
an integer may have. Each part of the text is read from where the part before it has ended, so such
an integer is a run of digits in the text: a text without a long run has no such integer
(`readText_ne_longInteger`).
-/

set_option autoImplicit false

namespace ApiTree.Json

/-- No run of digits in the text is longer than an integer may be. -/
def HasShortRuns (cs : List Char) : Prop :=
  ∀ ds, ds <:+: cs → (∀ d ∈ ds, d.isDigit) → ds.length ≤ Text.maxDigits

theorem HasShortRuns.of_suffix {cs rest : List Char} (h : HasShortRuns cs) (hrest : rest <:+ cs) :
    HasShortRuns rest :=
  fun ds hds => h ds (hds.trans hrest.isInfix)

/-- A text that is no longer than an integer may be has no long run. -/
theorem hasShortRuns_of_length {cs : List Char} (h : cs.length ≤ Text.maxDigits) :
    HasShortRuns cs :=
  fun _ hds _ => hds.length_le.trans h

/-- A reading that goes forward: what it leaves is the end of the text, and it comes to a long
integer only if the text has a long run of digits. -/
structure Forward {α : Type} (cs : List Char) (r : Rest α) : Prop where
  suffix : ∀ {a rest}, r = .ok (a, rest) → rest <:+ cs
  long : r = .error .longInteger → ¬ HasShortRuns cs

section

variable {α β : Type} {cs rest : List Char} {r : Rest α}

theorem forward_ok {a : α} (h : rest <:+ cs) : Forward cs (.ok (a, rest)) where
  suffix heq := by
    obtain ⟨rfl, rfl⟩ := Prod.mk.inj (Except.ok.inj heq)
    exact h
  long heq := by cases heq

theorem forward_malformed : Forward cs (.error .malformed : Rest α) where
  suffix heq := by cases heq
  long heq := by cases heq

theorem forward_longInteger (h : ¬ HasShortRuns cs) :
    Forward cs (.error .longInteger : Rest α) where
  suffix heq := by cases heq
  long _ := h

theorem Forward.of_suffix (h : Forward rest r) (hrest : rest <:+ cs) : Forward cs r where
  suffix heq := (h.suffix heq).trans hrest
  long heq := fun hshort => h.long heq (hshort.of_suffix hrest)

theorem Forward.map (h : Forward cs r) (f : α → β) : Forward cs (r.map fun p => (f p.1, p.2)) where
  suffix heq := by
    cases r with
    | error e => cases heq
    | ok p =>
      obtain ⟨rfl, rfl⟩ := Prod.mk.inj (Except.ok.inj heq)
      exact h.suffix rfl
  long heq := by
    cases r with
    | error e => exact h.long (congrArg _ (Except.error.inj heq))
    | ok p => cases heq

/-- A long integer in the first part is one in the whole. -/
theorem Forward.error {e : ReadError} (h : Forward cs (.error e : Rest α)) :
    Forward cs (.error e : Rest β) where
  suffix heq := by cases heq
  long heq := h.long (congrArg _ (Except.error.inj heq))

end

theorem skipBlanks_suffix (cs : List Char) : skipBlanks cs <:+ cs := List.dropWhile_suffix _

/-! ## Texts and numbers -/

/-- What follows a text is the end of what it was read from. -/
theorem suffix_of_readString {cs s rest : List Char} (h : readString cs = some (s, rest)) :
    rest <:+ cs := by
  -- one step: a character is put in front of the text that is read from the end of the given one
  have hstep (before : List Char) {after s rest : List Char} {ch : Char}
      (ih : ∀ {s rest}, readString after = some (s, rest) → rest <:+ after)
      (h : ((readString after).map fun p => (ch :: p.1, p.2)) = some (s, rest)) :
      rest <:+ before ++ after := by
    obtain ⟨p, hp, heq⟩ := Option.map_eq_some_iff.mp h
    obtain ⟨-, rfl⟩ := Prod.mk.inj heq
    exact (ih hp).trans (List.suffix_append before after)
  fun_induction readString cs generalizing s rest with
  | case1 => cases h
  | case2 cs =>
    obtain ⟨-, rfl⟩ := Prod.mk.inj (Option.some.inj h)
    exact List.suffix_cons _ _
  | case3 => cases h
  | case4 a b c d e f g k cs _ _ _ _ ih =>
    exact hstep ['\\', 'u', a, b, c, d, '\\', 'u', e, f, g, k] ih h
  | case5 a b c d e f g k cs _ _ _ ih =>
    exact hstep ['\\', 'u', a, b, c, d] ih h
  | case6 => cases h
  | case7 a b c d cs _ _ _ ih => exact hstep ['\\', 'u', a, b, c, d] ih h
  | case8 => cases h
  | case9 c cs _ _ _ _ ih => exact hstep ['\\', c] ih h
  | case10 => cases h
  | case11 c cs _ _ _ _ _ ih => exact hstep [c] ih h

theorem startsWith_wholeDigits (cs : List Char) : wholeDigits cs <+: cs := by
  unfold wholeDigits
  split
  · exact ⟨_, rfl⟩
  · exact List.takeWhile_prefix _

theorem isDigit_of_mem_wholeDigits {cs : List Char} : ∀ d ∈ wholeDigits cs, d.isDigit := by
  intro d hd
  unfold wholeDigits at hd
  split at hd
  · rw [List.mem_singleton.mp hd]
    rfl
  · exact List.mem_takeWhile_imp hd

/-- The digits of a number that is too long are a long run of the text. -/
theorem not_hasShortRuns_of_wholeDigits {cs body : List Char} (hbody : body <:+ cs)
    (h : (wholeDigits body).length > Text.maxDigits) : ¬ HasShortRuns cs := by
  intro hshort
  have hle := hshort _ ((startsWith_wholeDigits body).isInfix.trans hbody.isInfix)
    isDigit_of_mem_wholeDigits
  omega

theorem forward_readNumber (cs : List Char) : Forward cs (readNumber cs) := by
  unfold readNumber
  split
  next negative body hsplit =>
    have hbody : body <:+ cs := by
      split at hsplit
      · obtain ⟨-, rfl⟩ := Prod.mk.inj hsplit
        exact List.suffix_cons _ _
      · obtain ⟨-, rfl⟩ := Prod.mk.inj hsplit
        exact List.suffix_rfl
    have hrest (k l m : Nat) : ((body.drop k).drop l).drop m <:+ cs := by
      refine (List.drop_suffix _ _).trans ?_
      refine (List.drop_suffix _ _).trans ?_
      exact (List.drop_suffix _ _).trans hbody
    dsimp only
    split
    · exact forward_malformed
    · split
      · split
        · next hlong =>
          exact forward_longInteger (not_hasShortRuns_of_wholeDigits hbody hlong)
        · split
          · exact forward_ok (hrest _ _ _)
          · exact forward_malformed
      · split
        · exact forward_ok (hrest _ _ _)
        · exact forward_malformed

theorem suffix_of_afterWord? {word : String} {cs rest : List Char}
    (h : afterWord? word cs = some rest) : rest <:+ cs := by
  rw [afterWord?] at h
  split at h
  · rw [← Option.some.inj h]
    exact List.drop_suffix _ _
  · cases h

theorem forward_readAtom (cs : List Char) : Forward cs (readAtom cs) := by
  rw [readAtom]
  repeat'
    split
    · next h => exact forward_ok (suffix_of_afterWord? h)
  exact forward_readNumber cs

/-! ## Values -/

section

variable {fuel : Nat}

theorem forward_readValue_succ (hitems : ∀ cs, Forward cs (readItems fuel cs))
    (hentries : ∀ cs, Forward cs (readEntries fuel cs)) (cs : List Char) :
    Forward cs (readValue (fuel + 1) cs) := by
  unfold readValue
  split
  · next cs =>
    split
    · next h => exact forward_ok ((suffix_of_readString h).trans (List.suffix_cons _ _))
    · exact forward_malformed
  · next cs =>
    have hskip : skipBlanks cs <:+ '[' :: cs := (skipBlanks_suffix cs).trans (List.suffix_cons _ _)
    split
    · next h => exact forward_ok ((List.suffix_cons _ _).trans (h ▸ hskip))
    · exact ((hitems _).map Value.seq).of_suffix hskip
  · next cs =>
    have hskip : skipBlanks cs <:+ '\x7b' :: cs :=
      (skipBlanks_suffix cs).trans (List.suffix_cons _ _)
    split
    · next h => exact forward_ok ((List.suffix_cons _ _).trans (h ▸ hskip))
    · exact ((hentries _).map fun es => Value.map (Entries.ofPairs es)).of_suffix hskip
  · exact forward_readAtom cs

theorem forward_readItems_succ (hvalue : ∀ cs, Forward cs (readValue fuel cs))
    (hitems : ∀ cs, Forward cs (readItems fuel cs)) (cs : List Char) :
    Forward cs (readItems (fuel + 1) cs) := by
  unfold readItems
  split
  · next e h => exact (h ▸ hvalue cs).error
  · next v after h =>
    have hskip : skipBlanks after <:+ cs := (skipBlanks_suffix after).trans ((hvalue cs).suffix h)
    split
    · next heq => exact forward_ok ((List.suffix_cons _ _).trans (heq ▸ hskip))
    · next heq =>
      exact ((hitems _).map (v :: ·)).of_suffix
        ((skipBlanks_suffix _).trans ((List.suffix_cons _ _).trans (heq ▸ hskip)))
    · exact forward_malformed

theorem forward_readEntries_succ (hvalue : ∀ cs, Forward cs (readValue fuel cs))
    (hentries : ∀ cs, Forward cs (readEntries fuel cs)) (cs : List Char) :
    Forward cs (readEntries (fuel + 1) cs) := by
  unfold readEntries
  split
  · next cs =>
    split
    · exact forward_malformed
    · next key after h =>
      have hkey : skipBlanks after <:+ '"' :: cs :=
        (skipBlanks_suffix after).trans ((suffix_of_readString h).trans (List.suffix_cons _ _))
      split
      · next afterColon heq =>
        have hcolon : skipBlanks afterColon <:+ '"' :: cs :=
          (skipBlanks_suffix _).trans ((List.suffix_cons _ _).trans (heq ▸ hkey))
        split
        · next e he => exact (he ▸ (hvalue _).of_suffix hcolon).error
        · next v rest hv =>
          have hskip : skipBlanks rest <:+ '"' :: cs :=
            (skipBlanks_suffix _).trans (((hvalue _).suffix hv).trans hcolon)
          dsimp only
          split
          · next heq' => exact forward_ok ((List.suffix_cons _ _).trans (heq' ▸ hskip))
          · next heq' =>
            exact ((hentries _).map ((Value.str (String.ofList key), v) :: ·)).of_suffix
              ((skipBlanks_suffix _).trans ((List.suffix_cons _ _).trans (heq' ▸ hskip)))
          · exact forward_malformed
      · exact forward_malformed
  · exact forward_malformed

end

/-- Values, elements and entries are read forwards, whatever the fuel. -/
theorem forward_values (fuel : Nat) :
    (∀ cs, Forward cs (readValue fuel cs)) ∧ (∀ cs, Forward cs (readItems fuel cs)) ∧
      (∀ cs, Forward cs (readEntries fuel cs)) := by
  -- the three call one another with one unit of fuel less
  induction fuel with
  | zero =>
    exact ⟨fun _ => forward_malformed, fun _ => forward_malformed, fun _ => forward_malformed⟩
  | succ fuel ih =>
    obtain ⟨hvalue, hitems, hentries⟩ := ih
    exact ⟨forward_readValue_succ hitems hentries, forward_readItems_succ hvalue hitems,
      forward_readEntries_succ hvalue hentries⟩

/-- A text without a long run of digits has no integer that is too long. -/
theorem readText_ne_longInteger {cs : List Char} (h : HasShortRuns cs) :
    readText cs ≠ .error .longInteger := by
  intro heq
  have hvalue := (forward_values (cs.length + 1)).1 (skipBlanks cs)
  rw [readText, bind_eq_error] at heq
  rcases heq with heq | ⟨p, -, heq⟩
  · exact hvalue.long heq (h.of_suffix (skipBlanks_suffix cs))
  · dsimp only at heq
    split at heq
    · cases heq
    · cases heq

/-- A number of ones that is too long is not read, whatever stands after the brace that follows it.
-/
theorem readValue_of_ones {n : Nat} (h : Text.maxDigits ≤ n) (fuel : Nat) (rest : List Char) :
    readValue (fuel + 1) ('1' :: (List.replicate n '1' ++ '\x7d' :: rest)) =
      .error .longInteger := by
  have hwhole : wholeDigits ('1' :: (List.replicate n '1' ++ '\x7d' :: rest)) =
      '1' :: List.replicate n '1' := by
    have htake : wholeDigits ('1' :: (List.replicate n '1' ++ '\x7d' :: rest)) =
        '1' :: (List.replicate n '1' ++ '\x7d' :: rest).takeWhile Char.isDigit := rfl
    rw [htake, List.takeWhile_append_of_pos (by simp), List.takeWhile_cons_of_neg (by decide),
      List.append_nil]
  have hafter : (List.replicate n '1' ++ '\x7d' :: rest).drop n = '\x7d' :: rest :=
    List.drop_left' List.length_replicate
  have hnumber : readValue (fuel + 1) ('1' :: (List.replicate n '1' ++ '\x7d' :: rest)) =
      readNumber ('1' :: (List.replicate n '1' ++ '\x7d' :: rest)) := by
    simp [readValue, readAtom, afterWord?]
  have hfraction : fractionPart ('\x7d' :: rest) = [] := rfl
  have hexponent : exponentPart ('\x7d' :: rest) = [] := rfl
  rw [hnumber]
  unfold readNumber
  split
  next negative body hsplit =>
    obtain ⟨-, rfl⟩ := Prod.mk.inj hsplit
    simp only [hwhole, List.length_cons, List.length_replicate, List.drop_succ_cons, hafter,
      hfraction, List.length_nil, List.drop_zero, hexponent, List.isEmpty_nil, List.isEmpty_cons,
      Bool.and_self, Bool.false_eq_true, if_false, if_true]
    exact if_pos (by omega)

/-- A mapping with a number of ones that is too long is not read. -/
theorem readText_of_ones {n : Nat} (h : Text.maxDigits ≤ n) :
    readText ("\x7b\"note\": ".toList ++ '1' :: (List.replicate n '1' ++ ['\x7d'])) =
      .error .longInteger := by
  have hlength : ("\x7b\"note\": ".toList ++
      '1' :: (List.replicate n '1' ++ ['\x7d'])).length + 1 = n + 9 + 3 := by
    simp
  have hentries : readEntries (n + 9 + 2)
      ("\"note\": ".toList ++ '1' :: (List.replicate n '1' ++ ['\x7d'])) = .error .longInteger := by
    unfold readEntries
    simp [readString, skipBlanks, readValue_of_ones h]
  have hvalue : readValue (n + 9 + 3) (skipBlanks ("\x7b\"note\": ".toList ++
      '1' :: (List.replicate n '1' ++ ['\x7d']))) =
      (readEntries (n + 9 + 2) ("\"note\": ".toList ++
        '1' :: (List.replicate n '1' ++ ['\x7d']))).map
          fun p => (Value.map (Entries.ofPairs p.1), p.2) := rfl
  rw [readText, hlength, hvalue, hentries]
  rfl

end ApiTree.Json
