import ApiTree.Text.Blank
import ApiTree.Value.Text

/-!
# Pointers into a document

A place in a document is the list of keys and positions that lead to it. As text it is a pointer,
`#/paths/~1widgets/get`: the steps with slashes between them, a slash in a key written `~1` and a tilde
`~0`. Messages show the places of elements that are there (`Pointer.render`). Of steps of any kind
`Pointer.write` refuses a position that has more digits than a numeral may have.
-/

set_option autoImplicit false

namespace ApiTree

/-- A step into a value: to a key of a mapping or to a position in a list. -/
inductive Step where
  | key (name : String)
  | index (position : Int)
  deriving DecidableEq, Repr, Inhabited

namespace Step

/-- The step as text. -/
def text : Step → String
  | .key name => name
  | .index position => toString position

/-- The text of a step, unless it is a position with more digits than a numeral may have. -/
def toText : Step → Except Failure String
  | .key name => .ok name
  | .index position => (Value.int position).toText

end Step

namespace Pointer

/-- One character of a step. -/
def escapeChar (c : Char) : List Char :=
  if c = '~' then ['~', '0'] else if c = '/' then ['~', '1'] else [c]

/-- The text of a step within a pointer. -/
def escape (s : String) : String := String.ofList (s.toList.flatMap escapeChar)

/-- The pointer to the place that the steps lead to. -/
def render (steps : List Step) : String :=
  "#/" ++ String.intercalate "/" (steps.map fun s => escape s.text)

/-- The pointer to the place that the steps lead to, if each of them can be written. -/
def write (steps : List Step) : Except Failure String := do
  let _ ← steps.mapM Step.toText
  return render steps

end Pointer
end ApiTree
