import ApiTree.Yaml.Cursor
import ApiTree.Yaml.Error
import Mathlib

/-!
# Readings that stay inside a text

Every step of reading moves a cursor forward in one text. A reading of the text therefore `Ends` in
one of three ways: with a result, on a broken rule of the format, or on an escape that stands in the
text and names no character.
-/

set_option autoImplicit false

namespace ApiTree.Yaml

/-- The text holds an escape of eight digits whose number is beyond the last character. The failure
says whether the number has 32 bits. -/
def HasEscape (text : List Char) (f : Failure) : Prop :=
  ∃ before digits after, text = before ++ '\\' :: 'U' :: (digits ++ after) ∧
    digits.length = 8 ∧ digits.all isHexDigit = true ∧ 0x110000 ≤ hexNumber digits ∧
    f = if hexNumber digits < 0x80000000 then .badValue else .tooLarge

theorem HasEscape.of_suffix {text whole : List Char} {f : Failure} (h : HasEscape text f)
    (hsuffix : text <:+ whole) : HasEscape whole f := by
  obtain ⟨before, digits, after, rfl, hdigits⟩ := h
  obtain ⟨start, rfl⟩ := hsuffix
  exact ⟨start ++ before, digits, after, by rw [List.append_assoc], hdigits⟩

/-- A reading of the text ends with a result of the given kind, breaks a rule, or meets an escape
that names no character. -/
def Ends {α : Type} (text : List Char) (P : α → Prop) : Except Error α → Prop
  | .ok a => P a
  | .error (.problem _) => True
  | .error (.failure f) => HasEscape text f

section Ends

variable {α β : Type} {text : List Char} {P : α → Prop} {Q : β → Prop}

theorem Ends.bind {r : Except Error α} {next : α → Except Error β} (hr : Ends text P r)
    (hnext : ∀ a, P a → Ends text Q (next a)) : Ends text Q (r >>= next) := by
  rcases r with (p | f) | a
  · trivial
  · exact hr
  · exact hnext a hr

theorem Ends.ite {p : Prop} [Decidable p] {r s : Except Error α} (hr : Ends text P r)
    (hs : Ends text P s) : Ends text P (if p then r else s) := by
  split
  · exact hr
  · exact hs

end Ends

/-- The cursor stands in the text. -/
def Cursor.Within (text : List Char) (c : Cursor) : Prop := c.rest <:+ text

namespace Cursor

variable {text : List Char} {c : Cursor}

theorem rest_advance (c : Cursor) : c.advance.rest = c.rest.tail := by
  rw [advance]
  split
  · simp [*]
  · split <;> simp [*]

theorem Within.advance (h : c.Within text) : c.advance.Within text := by
  rw [Within, rest_advance]
  exact (List.tail_suffix _).trans h

theorem Within.skip (h : c.Within text) (n : Nat) : (c.skip n).Within text := by
  induction n generalizing c with
  | zero => exact h
  | succ n ih => exact ih h.advance

theorem Within.span (h : c.Within text) (p : Char → Bool) : (c.span p).2.Within text := h.skip _

theorem Within.skipWhile (h : c.Within text) (p : Char → Bool) : (c.skipWhile p).Within text :=
  h.skip _

theorem Within.lineBreak (h : c.Within text) : c.lineBreak.2.Within text := by
  rw [Cursor.lineBreak]
  split
  · exact h.skip 2
  · split
    · exact h.advance
    · split
      · exact h.advance
      · exact h
  · exact h

/-- A comment, if one stands at the cursor, is passed inside the text. -/
theorem Within.skipComment (h : c.Within text) :
    (if c.isAt '#' then c.skipWhile (!isBreak ·) else c).Within text := by
  split
  · exact h.skipWhile _
  · exact h

end Cursor

end ApiTree.Yaml
