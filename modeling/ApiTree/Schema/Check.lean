import ApiTree.Schema.Violation

/-!
# Checking values against schemas

`Schema.check` lists what is wrong with a value, keyword by keyword in the order of the schema, and
within a keyword in the order of what it names. A choice between schemas that fails is one violation:
what the single schemas found wrong is not told.

A schema may stand for a named one, which may stand for another; the fuel bounds how often. A value
is entered at most as deep as it is, and between two levels of it a schema is entered at most
`Schema.maxNesting` times.
-/

set_option autoImplicit false

namespace ApiTree

namespace Value

mutual

/-- The number of levels of sequences and mappings. -/
def height : Value → Nat
  | .seq items => itemsHeight items + 1
  | .map entries => entriesHeight entries + 1
  | _ => 0

/-- The greatest number of levels of the elements. -/
def itemsHeight : List Value → Nat
  | [] => 0
  | v :: vs => max (height v) (itemsHeight vs)

/-- The greatest number of levels of the values of entries. -/
def entriesHeight : List (Value × Value) → Nat
  | [] => 0
  | (_, v) :: es => max (height v) (entriesHeight es)

end

/-- The value is a number that is less than the bound, or equal to it if the bound is excluded. -/
def isBelow (bound : Int) (exclusive : Bool) : Value → Bool
  | .int i => i < bound || (exclusive && i == bound)
  | .float x => x.isBelowInt bound || (exclusive && x.eqvInt bound)
  | _ => false

/-- Two elements of a list denote the same. -/
def hasRepetition : List Value → Bool
  | [] => false
  | v :: vs => vs.any (eqv false v) || hasRepetition vs

end Value

namespace Schema

/-- How often a schema is entered between two levels of a value. -/
def maxNesting : Nat := 16

/-- A violation at the value itself, unless the condition holds. -/
def expect (ok : Bool) (defect : Defect) : List Violation :=
  if ok then [] else [⟨[], defect⟩]

/-- What a keyword finds wrong with a value, given the check of inner schemas. `outer` is the schema
of which the keyword is a part. -/
def checkKeyword (check : Schema → Value → List Violation) (outer : Schema) (v : Value) :
    Keyword → List Violation
  | .kind k => expect (k.holds v) (.wrongKind v k)
  | .required names =>
    match v with
    | .map entries => names.flatMap fun name => expect (Fields.has name entries) (.missing name)
    | _ => []
  | .properties schemas =>
    schemas.flatMap fun (name, schema) =>
      match v.member? name with
      | some w => (check schema w).map (·.under (.key name))
      | none => []
  | .patterns schemas =>
    match v with
    | .map entries =>
      schemas.flatMap fun (pattern, schema) =>
        entries.flatMap fun (k, w) =>
          if keyMatches pattern k then (check schema w).map (·.under (.key k.text)) else []
    | _ => []
  | .closed =>
    match v with
    | .map entries =>
      let names := (outer.unnamed entries).map fun e => e.1.text
      expect names.isEmpty
        (match outer.keyPatterns with
         | [] => .unexpected names
         | patterns => .unmatched names patterns)
    | _ => []
  | .others schema =>
    match v with
    | .map entries =>
      (outer.unnamed entries).flatMap fun (k, w) => (check schema w).map (·.under (.key k.text))
    | _ => []
  | .items schema =>
    match v with
    | .seq items =>
      (items.mapIdx fun i w => (check schema w).map (·.under (.index i))).flatten
    | _ => []
  | .allOf schemas => schemas.flatMap fun schema => check schema v
  | .oneOf schemas =>
    expect ((schemas.filter fun schema => (check schema v).isEmpty).length = 1) (.noChoice v)
  | .never schema => expect (!(check schema v).isEmpty) (.forbidden v schema)
  | .values allowed => expect (allowed.any (Value.eqv false v)) (.notAllowed v allowed)
  | .pattern p =>
    match v with
    | .str s => expect (p.accepts s) (.mismatch v p)
    | _ => []
  | .minimum bound exclusive => expect (!v.isBelow bound exclusive) (.tooSmall v bound exclusive)
  | .minItems bound =>
    match v with
    | .seq items => expect (bound ≤ items.length) (.tooShort v bound)
    | _ => []
  | .minProperties bound =>
    match v with
    | .map entries => expect (bound ≤ entries.length) (.tooFewEntries v bound)
    | _ => []
  | .maxProperties bound =>
    match v with
    | .map entries => expect (entries.length ≤ bound) (.tooManyEntries v bound)
    | _ => []
  | .uniqueItems =>
    match v with
    | .seq items => expect (!Value.hasRepetition items) (.repeated v)
    | _ => []
  | .ref _ | .note _ _ => []

/-- What is wrong with a value, the named schemas being those of `definitions`. -/
def checkFuel (definitions : List (String × Schema)) : Nat → Schema → Value → List Violation
  | 0, _, _ => []
  | fuel + 1, schema, v =>
    match schema.target? with
    | some name =>
      match Entries.get? name definitions with
      | some schema => checkFuel definitions fuel schema v
      | none => []
    | none => schema.flatMap (checkKeyword (checkFuel definitions fuel) schema v)

/-- What is wrong with a value. -/
def check (definitions : List (String × Schema)) (schema : Schema) (v : Value) : List Violation :=
  checkFuel definitions (maxNesting * (v.height + 1)) schema v

end Schema
end ApiTree
