import ApiTree.Schema.Pattern
import ApiTree.Value.Basic

/-!
# Schemas

A schema is a list of keywords, each of which restricts the values that the schema accepts; the empty
schema accepts every value. The order of the keywords is the order in which what is wrong with a value
is told. A keyword that refers to a named schema stands for that schema alone.
-/

set_option autoImplicit false

namespace ApiTree

/-- The kinds of values that a schema tells apart. -/
inductive ValueKind where
  | object
  | array
  | string
  | boolean
  | integer
  | number
  deriving DecidableEq, Repr, Inhabited

namespace ValueKind

/-- The kind as a schema writes it. -/
def render : ValueKind → String
  | .object => "object"
  | .array => "array"
  | .string => "string"
  | .boolean => "boolean"
  | .integer => "integer"
  | .number => "number"

/-- The value is of the kind. An integer is a number; a truth value is neither, and a number with a
point is no integer. -/
def holds : ValueKind → Value → Bool
  | .object, .map _ => true
  | .array, .seq _ => true
  | .string, .str _ => true
  | .boolean, .bool _ => true
  | .integer, .int _ => true
  | .number, .int _ | .number, .float _ => true
  | _, _ => false

end ValueKind

/-- A restriction on values. -/
inductive Keyword where
  | kind (kind : ValueKind)
  /-- The keys that a mapping must have. -/
  | required (names : List String)
  /-- The values at the given keys. -/
  | properties (entries : List (String × List Keyword))
  /-- The values at the keys that a pattern accepts. -/
  | patterns (entries : List (Pattern × List Keyword))
  /-- No keys but those that the keywords beside this one name. -/
  | closed
  /-- The values at the keys that the keywords beside this one do not name. -/
  | others (schema : List Keyword)
  | items (schema : List Keyword)
  | allOf (schemas : List (List Keyword))
  /-- Exactly one of the schemas accepts the value. -/
  | oneOf (schemas : List (List Keyword))
  | never (schema : List Keyword)
  | values (allowed : List Value)
  | pattern (pattern : Pattern)
  | minimum (bound : Int) (exclusive : Bool)
  | minItems (bound : Nat)
  | minProperties (bound : Nat)
  | maxProperties (bound : Nat)
  | uniqueItems
  /-- The schema of the given name, and nothing that stands beside this keyword. -/
  | ref (name : String)
  /-- A remark that restricts nothing. -/
  | note (name : String) (value : Value)
  deriving Inhabited

/-- A list of restrictions. -/
abbrev Schema := List Keyword

namespace Schema

/-- The name of the schema that this one stands for. -/
def target? : Schema → Option String
  | [] => none
  | .ref name :: _ => some name
  | _ :: rest => target? rest

/-- The keys that the schema names. -/
def namedKeys (schema : Schema) : List String :=
  schema.flatMap fun
    | .properties entries => entries.map Prod.fst
    | _ => []

/-- The patterns on keys. -/
def keyPatterns (schema : Schema) : List Pattern :=
  schema.flatMap fun
    | .patterns entries => entries.map Prod.fst
    | _ => []

/-- The pattern accepts the key; only texts are accepted. -/
def keyMatches (pattern : Pattern) (key : Value) : Bool :=
  match key with
  | .str s => pattern.accepts s
  | _ => false

/-- The entries whose keys the schema neither names nor accepts by a pattern. -/
def unnamed (schema : Schema) (entries : Fields) : Fields :=
  entries.filter fun e =>
    !(schema.namedKeys.any fun name => e.1 == .str name) &&
      !(schema.keyPatterns.any fun pattern => keyMatches pattern e.1)

end Schema
end ApiTree
