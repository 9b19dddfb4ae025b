import ApiTree.Failure
import ApiTree.Reference.Place
import ApiTree.Value.Text

/-!
# Expanding shorthand names

A walk over a document that replaces every text at the place of a shorthand name by a reference. The
elements of a list stand at the place of the list. A reference is a mapping, so that a document that
is expanded has nothing more to expand.
-/

set_option autoImplicit false

namespace ApiTree.Reference

/-- What stands for a text at the end of a path. The kind of a component is the second key. -/
def expandText (path : List String) (name : String) : Except Failure Value :=
  let joined := String.intercalate "/" path
  if isSchemaPlace joined then .ok (Value.reference ("#/components/schemas/" ++ name))
  else if isComponentPlace joined then
    match path with
    | _ :: kind :: _ =>
      .ok (Value.reference
        ("#/components/" ++ kind ++ "/" ++ name ++ "/content/application~1json/schema"))
    | _ => .error .outOfRange
  else .ok (.str name)

mutual

/-- The value at the end of a path with every shorthand name in it expanded. -/
def expandAt (path : List String) : Value → Except Failure Value
  | .str s => expandText path s
  | .seq items => (expandItems path items).map .seq
  | .map entries => (expandEntries path entries).map .map
  | v => .ok v

/-- The elements of a list at the end of a path, expanded. -/
def expandItems (path : List String) : List Value → Except Failure (List Value)
  | [] => .ok []
  | v :: vs => do return (← expandAt path v) :: (← expandItems path vs)

/-- The entries of a mapping at the end of a path, expanded. -/
def expandEntries (path : List String) :
    List (Value × Value) → Except Failure (List (Value × Value))
  | [] => .ok []
  | (k, v) :: es => do
    return (k, ← expandAt (path ++ [k.text]) v) :: (← expandEntries path es)

end

/-- The document with every shorthand name expanded. -/
def expand (document : Value) : Except Failure Value := expandAt [] document

mutual

/-- A text, or the texts of a list, at the end of a path expanded; mappings are not entered. -/
def expandLeaf (path : List String) : Value → Except Failure Value
  | .str s => expandText path s
  | .seq items => (expandLeaves path items).map .seq
  | v => .ok v

/-- The elements of a list at the end of a path expanded; mappings are not entered. -/
def expandLeaves (path : List String) : List Value → Except Failure (List Value)
  | [] => .ok []
  | v :: vs => do return (← expandLeaf path v) :: (← expandLeaves path vs)

end

end ApiTree.Reference
