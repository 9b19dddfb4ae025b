import ApiTree.Text.Blank

/-!
# File paths

Paths as they are written and compared, without asking what exists. Empty segments and the segment
`.` mean nothing and are not kept; `..` is kept, since what it means depends on the directory before
it.
-/

set_option autoImplicit false

namespace ApiTree

/-- What a path starts from: the working directory or the root, which two slashes write apart. -/
inductive Anchor where
  | relative
  | root
  | doubleRoot
  deriving DecidableEq, Repr, Inhabited

/-- A path: where it starts and the names that it passes. -/
structure FilePath where
  anchor : Anchor
  segments : List String
  deriving DecidableEq, Repr, Inhabited

namespace FilePath

/-- The anchor as written. -/
def anchorText : Anchor → String
  | .relative => ""
  | .root => "/"
  | .doubleRoot => "//"

/-- The path that a text writes. Exactly two slashes at the start are an anchor of their own. -/
def ofText (s : String) : FilePath :=
  let cs := s.toList
  let anchor :=
    match (cs.takeWhile (· == '/')).length with
    | 0 => .relative
    | 2 => .doubleRoot
    | _ => .root
  ⟨anchor, ((Text.splitWhere (· == '/') cs).map String.ofList).filter fun p => p ≠ "" && p ≠ "."⟩

/-- The path as text; the working directory itself is a point. -/
def render (p : FilePath) : String :=
  match p.anchor, p.segments with
  | .relative, [] => "."
  | anchor, segments => anchorText anchor ++ String.intercalate "/" segments

/-- The path that leads on from `p`; one with an anchor starts anew. -/
def join (p q : FilePath) : FilePath :=
  if q.anchor = .relative then ⟨p.anchor, p.segments ++ q.segments⟩ else q

/-- The last segment. -/
def name (p : FilePath) : String := p.segments.getLast?.getD ""

/-- The path without its last segment. -/
def parent (p : FilePath) : FilePath := ⟨p.anchor, p.segments.dropLast⟩

/-- A name without its extension: what stands before the last point, when something stands on both
sides of it. -/
def stemOf (name : String) : String :=
  let cs := name.toList
  let (before, after) := Text.splitLast (· == '.') cs
  if before.isEmpty || after.isEmpty then name else String.ofList before

/-- The last segment without its extension. -/
def stem (p : FilePath) : String := stemOf p.name

/-- The segments of the path below `base`; none when it does not lead through `base`. -/
def below? (base p : FilePath) : Option (List String) :=
  if base.anchor = p.anchor && base.segments.isPrefixOf p.segments then
    some (p.segments.drop base.segments.length)
  else none

end FilePath
end ApiTree
