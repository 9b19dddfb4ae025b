import ApiTree.Text.Table

/-!
# Letter case

Lower and upper case of a text, character by character except that a capital sigma at the end of a
word has its own lower-case form.
-/

set_option autoImplicit false

namespace ApiTree.Text

open Table

/-- Lower-case form of one character, the capital sigma taken as inside a word. -/
def lowerChar (c : Char) : List Char :=
  if c.toNat < 128 then [c.toLower]
  else if c.toNat = 304 then ['i', '\u0307']
  else [Char.ofNat (shifted lowerRuns c.toNat)]

/-- Upper-case form of one character. -/
def upperChar (c : Char) : List Char :=
  if c.toNat < 128 then [c.toUpper]
  else
    match upperExpansions.lookup c.toNat with
    | some codes => codes.map Char.ofNat
    | none => [Char.ofNat (shifted upperRuns c.toNat)]

/-- The first character that is not passed over is a letter with case. -/
def meetsCased (cs : List Char) : Bool :=
  match cs.dropWhile fun c => Table.contains caseIgnorable c.toNat with
  | [] => false
  | c :: _ => Table.contains cased c.toNat

/-- Lower-case form of a text, given the characters before it in reverse. A capital sigma ends a
word when a letter stands before it and none after. -/
def lowerAfter : List Char → List Char → List Char
  | _, [] => []
  | before, c :: cs =>
    (if c.toNat = 0x3A3 then
      [if meetsCased before && !meetsCased cs then '\u03C2' else '\u03C3']
    else lowerChar c) ++ lowerAfter (c :: before) cs

/-- Lower-case form of a text. -/
def lower (s : String) : String :=
  String.ofList (lowerAfter [] s.toList)

/-- Upper-case form of a text. -/
def upper (s : String) : String :=
  String.ofList (s.toList.flatMap upperChar)

/-- A decimal digit of any script. -/
def isDigit (c : Char) : Bool :=
  Table.contains decimalDigits c.toNat

/-- The value of a decimal digit of any script; each run of digits starts with a zero. -/
def digitValue? (c : Char) : Option Nat :=
  let bounds := decimalDigits.takeWhile (· ≤ c.toNat)
  if bounds.length % 2 == 1 then
    bounds.getLast?.map fun first => (c.toNat - first) % 10
  else none

end ApiTree.Text
