import ApiTree.Text.Blank
import ApiTree.Text.Width

/-!
# Breaking text into lines

A text is broken before a word that does not fit into the rest of its line. A word that is wider than
a whole line is cut where the line is full. The blanks after a word stay with it and may go beyond the
end of the line.
-/

set_option autoImplicit false

namespace ApiTree.Text

/-- The words of a text that follows the start of a word. -/
def wordsFrom (word : List Char) : List Char → List (List Char)
  | [] => [word]
  | c :: cs =>
    if !isBlank c && word.getLast?.any isBlank then word :: wordsFrom [c] cs
    else wordsFrom (word ++ [c]) cs

/-- The words of a text, each with the blanks after it, the first with those before it too. -/
def words (cs : List Char) : List (List Char) :=
  match cs.dropWhile isBlank with
  | [] => []
  | c :: rest => wordsFrom (cs.takeWhile isBlank ++ [c]) rest

/-- Cut a word that follows `piece` wherever a line is full. -/
def cutFrom (limit : Nat) (piece : List Char) : List Char → List (List Char)
  | [] => [piece]
  | c :: cs =>
    if limit < width piece + charWidth c then piece :: cutFrom limit [c] cs
    else cutFrom limit (piece ++ [c]) cs

/-- The lines of words that follow the start of a line. -/
def linesFrom (limit : Nat) (line : List Char) : List (List Char) → List (List Char)
  | [] => [line]
  | word :: rest =>
    let needed := width (dropEndWhile isBlank word)
    if width line + needed ≤ limit then linesFrom limit (line ++ word) rest
    else
      let before := if line.isEmpty then [] else [line]
      if needed ≤ limit then before ++ linesFrom limit word rest
      else
        let pieces := cutFrom limit [] word
        before ++ pieces.dropLast ++ linesFrom limit (pieces.getLast?.getD []) rest

/-- The lines of a text of which none is wider than the limit, the blanks at their ends aside. -/
def wrap (limit : Nat) (cs : List Char) : List (List Char) :=
  match words cs with
  | [] => [cs]
  | found => linesFrom limit [] found

end ApiTree.Text
