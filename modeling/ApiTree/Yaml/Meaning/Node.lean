import ApiTree.Yaml.Meaning.Scalar
import ApiTree.Yaml.Node

/-!
# What nodes denote

The value of a node. Collections are filled level by level: a collection exists before its entries
have values, so of several errors in a document the one on the highest level counts, and on one
level the first. Each result therefore carries how many levels below its node an error lies.

Recursion takes the height of a node as fuel.
-/

set_option autoImplicit false

namespace ApiTree.Yaml

namespace Node

/-- The type of a node; an alias has none of its own. -/
def tag? : Node → Option Tag
  | .scalar t _ | .seq t _ | .map t _ => some t
  | .enclosing _ => none

mutual

/-- Number of levels of a node. -/
def height : Node → Nat
  | .scalar _ _ | .enclosing _ => 1
  | .seq _ items => heights items + 1
  | .map _ entries => entryHeights entries + 1

/-- The greatest number of levels of the nodes. -/
def heights : List Node → Nat
  | [] => 0
  | n :: ns => max (height n) (heights ns)

/-- The greatest number of levels of the keys and values. -/
def entryHeights : List (Node × Node) → Nat
  | [] => 0
  | (k, v) :: es => max (max (height k) (height v)) (entryHeights es)

end

/-- The node stands for the mapping that merges it, directly or in a sequence. Such a merge adds
nothing. -/
def isSelfMerge : Node → Bool
  | .enclosing levels => levels == 0
  | .seq _ items => items.any fun n => (n matches .enclosing 1)
  | _ => false

mutual

/-- The value of the node contains itself. -/
def isEndless : Node → Bool
  | .scalar _ _ => false
  | .enclosing _ => true
  | .seq _ items => anyEndless items
  | .map _ entries => anyEntryEndless entries

/-- The value of one of the nodes contains itself. -/
def anyEndless : List Node → Bool
  | [] => false
  | n :: ns => isEndless n || anyEndless ns

/-- The value of one of the entries contains itself. -/
def anyEntryEndless : List (Node × Node) → Bool
  | [] => false
  | (k, v) :: es =>
    isEndless k || (isEndless v && !(k.tag? == some .merge && isSelfMerge v)) || anyEntryEndless es

end

/-- The text of a node that is read as a scalar. A mapping is read so by its entry `=`. -/
def scalarText? : Nat → Node → Option String
  | 0, _ => none
  | fuel + 1, n =>
    match n with
    | .scalar _ text => some text
    | .map _ entries =>
      match entries.find? fun e => e.1.tag? == some .value with
      | some e => scalarText? fuel e.2
      | none => none
    | _ => none

/-- The node is a mapping, or stands for one that contains it. -/
def isMapping : Node → Bool
  | .map _ _ | .enclosing _ => true
  | _ => false

/-- The entries of a mapping with those that it merges put before its own; of the mappings in a
merged sequence the last comes first, so that the first one wins. -/
def mergedEntries : Nat → List (Node × Node) → Except Error (List (Node × Node))
  | 0, entries => .ok entries
  | fuel + 1, entries => do
    let ofMapping (n : Node) : Except Error (List (Node × Node)) :=
      match n with
      | .map _ es => mergedEntries fuel es
      | .enclosing _ => .ok []
      | _ => .error (.problem .merge)
    let merged ← (entries.filter fun e => e.1.tag? == some .merge).mapM fun e =>
      match e.2 with
      | .seq _ items => do return (← items.mapM ofMapping).reverse.flatten
      | n => ofMapping n
    return merged.flatten ++ entries.filter fun e => e.1.tag? != some .merge

end Node

namespace Meaning

/-- A value, or an error with the number of levels that it lies below its node. -/
abbrev Result (α : Type) := Except (Nat × Error) α

/-- An error of the node itself. -/
def here {α : Type} : Except Error α → Result α
  | .ok a => .ok a
  | .error e => .error (0, e)

/-- The result of an entry as one of its collection. -/
def below {α : Type} : Result α → Result α
  | .ok a => .ok a
  | .error (n, e) => .error (n + 1, e)

/-- Both values; of two errors the one on the higher level, or the first. -/
def both {α β : Type} : Result α → Result β → Result (α × β)
  | .ok a, .ok b => .ok (a, b)
  | .error e, .ok _ => .error e
  | .ok _, .error e => .error e
  | .error d, .error e => .error (if e.1 < d.1 then e else d)

/-- All values; of several errors the one on the highest level, or the first. -/
def all {α : Type} : List (Result α) → Result (List α)
  | [] => .ok []
  | r :: rs => (both r (all rs)).map fun p => p.1 :: p.2

/-- A key must be a value that can be compared for good. -/
def asKey (r : Result Value) : Result Value :=
  match r with
  | .ok v => if v.isKey then .ok v else .error (0, .problem .key)
  | .error e => .error e

/-- A node whose type does not fit the kind of collection that it claims. -/
def unfit {α : Type} : Result α := .error (1, .problem .tag)

/-- The value of a key. The key `=` is text, and a collection is refused as a key before it is
filled. -/
def key (value : Node → Result Value) (n : Node) : Result Value :=
  match n with
  | .enclosing _ => .error (0, .problem .key)
  | .scalar .value text => .ok (.str text)
  | n =>
    match n.tag? with
    | some .seq | some .map | some .set | some .omap | some .pairs => .error (0, .problem .key)
    | _ => asKey (value n)

/-- The entries of a mapping, merges resolved. -/
def entries (value : Node → Result Value) (fuel : Nat) (es : List (Node × Node)) :
    Result (List (Value × Value)) :=
  match Node.mergedEntries fuel es with
  | .error e => .error (1, e)
  | .ok es =>
    (all (es.map fun (k, v) => below (both (key value k) (value v)))).map
      (Entries.ofPairsBy Value.sameKey)

/-- The pair that a mapping of one entry denotes in a list of pairs. -/
def pair (value : Node → Result Value) (item : Node) : Result Value :=
  match item with
  | .map _ [(k, v)] => (below (both (value k) (value v))).map fun p => Value.pair p.1 p.2
  | _ => unfit

/-- The value of a node. -/
def node : Nat → Node → Result Value
  | 0, _ => .ok .null
  | fuel + 1, n =>
    match n with
    | .enclosing _ => .ok .null
    | .scalar tag text =>
      match tag with
      | .seq | .map | .set | .omap | .pairs => unfit
      | _ => here (scalar tag text)
    | .seq tag items =>
      match tag with
      | .seq => (all (items.map fun item => below (node fuel item))).map .seq
      | .omap | .pairs => (all (items.map (pair (node fuel)))).map .seq
      | .map | .set => unfit
      | _ => .error (0, .problem .tag)
    | .map tag es =>
      match tag with
      | .map => (entries (node fuel) fuel es).map .map
      | .set => (entries (node fuel) fuel es).map fun es => .set (Entries.keys es)
      | .seq | .omap | .pairs => unfit
      | .merge | .value | .unknown => .error (0, .problem .tag)
      | _ =>
        match n.scalarText? (fuel + 1) with
        | none => .error (0, .problem .tag)
        | some text =>
          if tag = .timestamp then .error (0, .failure .wrongKind) else here (scalar tag text)

end Meaning

/-- The value of a text and whether it contains itself. A text without a document denotes null. -/
structure Reading where
  value : Value
  endless : Bool
  deriving Inhabited

/-- The value of a text. -/
def read (text : List Char) : Except Error Reading :=
  if text.all isAllowed then
    match Node.ofTokens (Token.ofText text) with
    | .error e => .error e
    | .ok none => .ok ⟨.null, false⟩
    | .ok (some n) =>
      match Meaning.node n.height n with
      | .error (_, e) => .error e
      | .ok v => .ok ⟨v, n.isEndless⟩
  else .error (.problem .unprintable)

end ApiTree.Yaml
