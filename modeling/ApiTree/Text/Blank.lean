/-!
# Blank characters and trimming

The characters that count as blank, and cutting text at them. All functions work on lists of
characters; `Text.trim` is the form on strings.
-/

set_option autoImplicit false

namespace ApiTree.Text

/-- A blank character: the ASCII controls from tab to carriage return, the four information
separators, the next-line control and every separator character. -/
def isBlank (c : Char) : Bool :=
  (9 ≤ c.toNat && c.toNat ≤ 13) || (28 ≤ c.toNat && c.toNat ≤ 32) || c.toNat == 0x85 ||
    c.toNat == 0xA0 || c.toNat == 0x1680 || (0x2000 ≤ c.toNat && c.toNat ≤ 0x200A) ||
    c.toNat == 0x2028 || c.toNat == 0x2029 || c.toNat == 0x202F || c.toNat == 0x205F ||
    c.toNat == 0x3000

/-- The list without its longest end segment of elements that satisfy `p`. -/
def dropEndWhile {α : Type} (p : α → Bool) (xs : List α) : List α :=
  (xs.reverse.dropWhile p).reverse

/-- The list without its longest segments at both ends of elements that satisfy `p`. -/
def trimWhile {α : Type} (p : α → Bool) (xs : List α) : List α :=
  dropEndWhile p (xs.dropWhile p)

/-- Text without the blanks at its ends. -/
def trim (s : String) : String :=
  String.ofList (trimWhile isBlank s.toList)

/-- The first field of the text and what follows the blanks after it; nothing when there is no
second field. -/
def splitField (cs : List Char) : List Char × List Char :=
  let cs := cs.dropWhile isBlank
  (cs.takeWhile (!isBlank ·), (cs.dropWhile (!isBlank ·)).dropWhile isBlank)

/-- Cut a list at each element that satisfies `p`, keeping empty pieces. -/
def splitWhere {α : Type} (p : α → Bool) : List α → List (List α)
  | [] => [[]]
  | x :: xs =>
    if p x then [] :: splitWhere p xs
    else
      match splitWhere p xs with
      | [] => [[x]]
      | piece :: pieces => (x :: piece) :: pieces

/-- Cut a list after the last element that satisfies `p`: what stands before that element and what
stands after it; nothing stands before when there is no such element. -/
def splitLast {α : Type} (p : α → Bool) (xs : List α) : List α × List α :=
  let after := (xs.reverse.takeWhile (!p ·)).reverse
  (xs.take (xs.length - after.length - 1), after)

/-- The list holds `part` as a contiguous segment. -/
def hasSegment {α : Type} [BEq α] (part : List α) : List α → Bool
  | [] => part.isEmpty
  | x :: xs => part.isPrefixOf (x :: xs) || hasSegment part xs

/-- The string holds `part` as a contiguous segment. -/
def contains (s part : String) : Bool :=
  hasSegment part.toList s.toList

/-- The string starts with `part`. -/
def startsWith (s part : String) : Bool :=
  part.toList.isPrefixOf s.toList

/-- The string ends with `part`. -/
def endsWith (s part : String) : Bool :=
  part.toList.isSuffixOf s.toList

/-- Every character that core counts as white space is blank. -/
theorem isBlank_of_isWhitespace {c : Char} (h : c.isWhitespace = true) : isBlank c = true := by
  simp only [Char.isWhitespace, Bool.or_eq_true, decide_eq_true_eq] at h
  rcases h with ((rfl | rfl) | rfl) | rfl <;> rfl

end ApiTree.Text
