import ApiTree.Text.Blank

/-!
# Places of shorthand names

A schema may be referred to by its mere name at certain places of a document. Whether a text is such
a name is decided by the path of keys that leads to it, written with slashes between the keys. There
are two kinds of places:

* a named schema: `…/properties/<name>` or `components/schemas/<name>`, then possibly `/items` and
  possibly a composition keyword;
* the schema of a component: `components/<kind>/<name>/schema` for request bodies and responses, or
  the same below their JSON content, then possibly a composition keyword.

A newline at the very end of the path does not count.
-/

set_option autoImplicit false

namespace ApiTree.Reference

/-- A piece of a path between slashes. -/
abbrev Piece := List Char

/-- The keywords that compose schemas. -/
def compositions : List Piece := ["oneOf", "allOf", "anyOf", "not"].map String.toList

/-- The folders of components that have content. -/
def contentKinds : List Piece := ["requestBodies", "responses"].map String.toList

/-- The pieces of a path. -/
def pieces (path : List Char) : List Piece := Text.splitWhere (· == '/') path

/-- The pieces from the last one back without one that satisfies `p` at their head. -/
def skipOne (p : Piece → Bool) : List Piece → List Piece
  | x :: xs => if p x then xs else x :: xs
  | [] => []

/-- The pieces, from the last one back, start with a name that a container of schemas holds. -/
def endsInName : List Piece → Bool
  | name :: container :: before =>
    !name.isEmpty && ((container == "properties".toList && !before.isEmpty) ||
      (container == "schemas".toList && before == ["components".toList]))
  | _ => false

/-- The pieces, from the last one back, lead to a named schema or to what it is composed of. -/
def leadToSchema (back : List Piece) : Bool :=
  let isItems (p : Piece) : Bool := p == "items".toList
  let whole := skipOne compositions.contains back
  endsInName back || endsInName (skipOne isItems back) || endsInName whole ||
    endsInName (skipOne isItems whole)

/-- The pieces lead to the schema of a component with content. -/
def leadToComponent (ps : List Piece) : Bool :=
  match ps with
  | components :: kind :: name :: rest =>
    components == "components".toList && contentKinds.contains kind && !name.isEmpty &&
      (let rest :=
        if ["content", "application", "json"].map String.toList |>.isPrefixOf rest then rest.drop 3
        else rest
       match rest with
       | [schema] => schema == "schema".toList
       | [schema, keyword] => schema == "schema".toList && compositions.contains keyword
       | _ => false)
  | _ => false

/-- The path and, if it ends with a newline, the path without it. -/
def readings (path : List Char) : List (List Char) :=
  if path.getLast? = some '\n' then [path, path.dropLast] else [path]

/-- The path is a place of a named schema. -/
def isSchemaPlace (path : String) : Bool :=
  (readings path.toList).any fun p => leadToSchema (pieces p).reverse

/-- The path is a place of the schema of a component. -/
def isComponentPlace (path : String) : Bool :=
  (readings path.toList).any fun p => leadToComponent (pieces p)

end ApiTree.Reference
