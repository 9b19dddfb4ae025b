import ApiTree.Text.Blank
import ApiTree.Text.Case

/-!
# Patterns of names

The patterns that a schema puts on texts and on the keys of mappings. Each has the form in which
messages show it, `Pattern.render`, and says which texts it accepts, `Pattern.accepts`. A pattern that
is anchored at its end also accepts a text with one newline after what it describes.
-/

set_option autoImplicit false

namespace ApiTree

/-- A pattern of a schema. -/
inductive Pattern where
  /-- The key of an extension. -/
  | extension
  /-- A path that starts at the root. -/
  | rooted
  /-- The number of a revision of version 3.0 of the format. -/
  | revision
  /-- The name of a component. -/
  | componentName
  | method
  /-- A status code or a class of status codes. -/
  | status
  /-- The key of a reference. -/
  | referenceKey
  /-- The name of the bearer scheme in any case. -/
  | bearer
  deriving DecidableEq, Repr, Inhabited

namespace Pattern

/-- The pattern as messages show it. -/
def render : Pattern → String
  | .extension => "^x-"
  | .rooted => "^\\/"
  | .revision => "^3\\.0\\.\\d(-.+)?$"
  | .componentName => "^[a-zA-Z0-9\\.\\-_]+$"
  | .method => "^(get|put|post|delete|options|head|patch|trace)$"
  | .status => "^[1-5](?:\\d\x7b2\x7d|XX)$"
  | .referenceKey => "^\\$ref$"
  | .bearer => "^[Bb][Ee][Aa][Rr][Ee][Rr]$"

/-- The methods of an operation that the format knows. -/
def methodNames : List String :=
  ["get", "put", "post", "delete", "options", "head", "patch", "trace"]

/-- A revision of version 3.0: one digit, then possibly a hyphen and a label on the same line. -/
def isRevision (cs : List Char) : Bool :=
  match cs with
  | '3' :: '.' :: '0' :: '.' :: d :: rest =>
    Text.isDigit d &&
      match rest with
      | [] => true
      | '-' :: label => !label.isEmpty && !label.contains '\n'
      | _ => false
  | _ => false

/-- A character of the name of a component. -/
def isComponentChar (c : Char) : Bool :=
  c.isAlphanum || c == '.' || c == '-' || c == '_'

/-- A status code, or a class of them such as `2XX`. -/
def isStatus (cs : List Char) : Bool :=
  match cs with
  | [a, b, c] =>
    '1' ≤ a && a ≤ '5' && ((Text.isDigit b && Text.isDigit c) || (b == 'X' && c == 'X'))
  | _ => false

/-- The text, or the text without the newline at its end, satisfies `p`. -/
def atEnd (p : List Char → Bool) (cs : List Char) : Bool :=
  p cs || (cs.getLast? == some '\n' && p cs.dropLast)

/-- The pattern accepts the text. -/
def accepts (pattern : Pattern) (s : String) : Bool :=
  let cs := s.toList
  match pattern with
  | .extension => Text.startsWith s "x-"
  | .rooted => Text.startsWith s "/"
  | .revision => atEnd isRevision cs
  | .componentName => atEnd (fun cs => !cs.isEmpty && cs.all isComponentChar) cs
  | .method => atEnd (fun cs => methodNames.any (·.toList == cs)) cs
  | .status => atEnd isStatus cs
  | .referenceKey => atEnd (· == "$ref".toList) cs
  | .bearer => atEnd (fun cs => cs.map Char.toLower == "bearer".toList) cs

end Pattern
end ApiTree
