import ApiTree.Text.Blank

/-!
# Lines

Where a text breaks into lines, its line-numbered copy, and the reading of line ends as one newline.
-/

set_option autoImplicit false

namespace ApiTree.Text

/-- A character that ends a line. -/
def isLineEnd (c : Char) : Bool :=
  (10 ≤ c.toNat && c.toNat ≤ 13) || (28 ≤ c.toNat && c.toNat ≤ 30) || c.toNat == 0x85 ||
    c.toNat == 0x2028 || c.toNat == 0x2029

/-- The lines of a text. A carriage return and a newline together end one line, and nothing
follows the last line end. -/
def lines : List Char → List (List Char)
  | [] => []
  | '\r' :: '\n' :: cs => [] :: lines cs
  | c :: cs =>
    if isLineEnd c then [] :: lines cs
    else
      match lines cs with
      | [] => [[c]]
      | l :: ls => (c :: l) :: ls

/-- Each line of the text after its number, counted from one. -/
def numbered (s : String) : String :=
  String.intercalate "\n"
    ((lines s.toList).mapIdx fun i l => toString (i + 1) ++ ": " ++ String.ofList l)

/-- The text with each carriage return, alone or before a newline, read as a newline. -/
def unifyNewlines : List Char → List Char
  | [] => []
  | '\r' :: '\n' :: cs => '\n' :: unifyNewlines cs
  | c :: cs => (if c = '\r' then '\n' else c) :: unifyNewlines cs

end ApiTree.Text
