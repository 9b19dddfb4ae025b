import ApiTree.Failure
import ApiTree.Text.Blank
import ApiTree.Value.Basic

/-!
# Conversions between values

Authors write one value where a list is meant, or a list of pairs where a mapping is meant. The
conversions here read a value as a list, as a mapping or as something that has members; a value that
cannot be read so is a failure.
-/

set_option autoImplicit false

namespace ApiTree.Value

/-- The elements of a value that has some: the keys of a mapping, the characters of a text. -/
def elements : Value → Except Failure (List Value)
  | .seq items => .ok items
  | .set members => .ok members
  | .map entries => .ok (entries.map Prod.fst)
  | .str s => .ok (s.toList.map fun c => .str (String.singleton c))
  | .bytes bs => .ok (bs.map fun b => .int b.toNat)
  | .pair a b => .ok [a, b]
  | _ => .error .wrongKind

/-- The key and value that the two elements of a value are. -/
def toEntry (v : Value) : Except Failure (Value × Value) := do
  match ← v.elements with
  | [k, w] => if k.isKey then return (k, w) else throw .wrongKind
  | _ => throw .badValue

/-- The entries of a mapping, or those that the elements of another value write. -/
def toFields : Value → Except Failure Fields
  | .map entries => .ok entries
  | v => do return Entries.ofPairsBy sameKey (← (← v.elements).mapM toEntry)

/-- The value, unless it is empty. -/
def orElse (v alternative : Value) : Value := if v.isTruthy then v else alternative

/-- The elements of a list; none for null, and another value alone. -/
def toItems : Value → List Value
  | .null => []
  | .seq items => items
  | v => [v]

mutual

/-- The elements of a list at any depth of lists; another value alone. -/
def leaves : Value → List Value
  | .seq items => itemLeaves items
  | v => [v]

/-- The elements at any depth of the elements of a list. -/
def itemLeaves : List Value → List Value
  | [] => []
  | v :: vs => leaves v ++ itemLeaves vs

end

/-- The elements of a list at any depth of lists; none for null. -/
def toLeaves (v : Value) : List Value := if v.isNull then [] else v.leaves

/-- The value at a text key of a mapping, null when there is none; only mappings have members. -/
def lookup (key : String) : Value → Except Failure Value
  | .map entries => .ok (Fields.getD key entries)
  | _ => .error .noMember

/-- The text is a key or an element of the value. -/
def hasElement (name : String) : Value → Except Failure Bool
  | .map entries => .ok (Fields.has name entries)
  | .str s => .ok (Text.contains s name)
  | .bytes _ => .error .wrongKind
  | v => do return (← v.elements).contains (.str name)

end ApiTree.Value
