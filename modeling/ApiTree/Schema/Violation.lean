import ApiTree.Schema.Literal
import ApiTree.Schema.Pointer
import ApiTree.Value.Text

/-!
# Violations

What can be wrong with a value according to a schema, where, and the sentence that says so.
-/

set_option autoImplicit false

namespace ApiTree

/-- What is wrong with a value. -/
inductive Defect where
  | wrongKind (v : Value) (kind : ValueKind)
  | missing (name : String)
  /-- Keys that neither the schema names nor one of its patterns accepts. -/
  | unmatched (names : List String) (patterns : List Pattern)
  /-- Keys that the schema does not name; it has no patterns. -/
  | unexpected (names : List String)
  | mismatch (v : Value) (pattern : Pattern)
  | notAllowed (v : Value) (allowed : List Value)
  | tooShort (v : Value) (bound : Nat)
  | tooFewEntries (v : Value) (bound : Nat)
  | tooManyEntries (v : Value) (bound : Nat)
  | repeated (v : Value)
  | tooSmall (v : Value) (bound : Int) (exclusive : Bool)
  | forbidden (v : Value) (schema : Schema)
  /-- None of several schemas accepts the value, or more than one. -/
  | noChoice (v : Value)
  deriving Inhabited

/-- What is wrong at a place of a document. -/
structure Violation where
  place : List Step
  defect : Defect
  deriving Inhabited

namespace Defect

/-- The kind of a value as messages name it. -/
def kindName : Value → String
  | .map _ => "object"
  | .seq _ => "array"
  | .str _ => "string"
  | .bool _ => "boolean"
  | .int _ => "integer"
  | .float _ => "number"
  | .null => "null"
  | .date _ => "date"
  | .timestamp _ => "datetime"
  | .bytes _ => "bytes"
  | .set _ => "set"
  | .pair _ _ => "tuple"

/-- Texts in the order of their characters, each as a literal, with commas between them. -/
def listed (texts : List String) : String :=
  String.intercalate ", " ((texts.mergeSort (· ≤ ·)).map Text.literal)

/-- The part of the sentence after the place. -/
def reason : Defect → String
  | .wrongKind v kind => v.literal ++ " is not of type " ++ Text.literal kind.render
  | .missing name => Text.literal name ++ " is a required property"
  | .unmatched names patterns =>
    listed names ++ (if names.length = 1 then " does" else " do") ++
      " not match any of the regexes: " ++ listed (patterns.map (·.render))
  | .unexpected names =>
    "Additional properties are not allowed (" ++ listed names ++
      (if names.length = 1 then " was" else " were") ++ " unexpected)"
  | .mismatch v pattern => v.literal ++ " does not match " ++ Text.literal pattern.render
  | .notAllowed v allowed => v.literal ++ " is not one of " ++ (Value.seq allowed).literal
  | .tooShort v bound =>
    v.literal ++ if bound = 1 then " should be non-empty" else " is too short"
  | .tooFewEntries v bound =>
    v.literal ++ if bound = 1 then " should be non-empty" else " does not have enough properties"
  | .tooManyEntries v bound =>
    v.literal ++ if bound = 0 then " is expected to be empty" else " has too many properties"
  | .repeated v => v.literal ++ " has non-unique elements"
  | .tooSmall v bound exclusive =>
    v.literal ++ (if exclusive then " is less than or equal to" else " is less than") ++
      " the minimum of " ++ toString bound
  | .forbidden v schema => v.literal ++ " should not be valid under " ++ schema.toValue.literal
  | .noChoice v => "of type " ++ kindName v ++ " did not match any of the required schemas"

end Defect

namespace Violation

/-- The sentence that tells the violation. -/
def message (v : Violation) : String :=
  "The property '" ++ Pointer.render v.place ++ "' " ++ v.defect.reason

/-- The violation seen from one step further out. -/
def under (step : Step) (v : Violation) : Violation := { v with place := step :: v.place }

/-- The first violation stands before the second in the order of the texts of their steps. -/
def before (v w : Violation) : Bool :=
  !List.lex (w.place.map (·.text)) (v.place.map (·.text)) fun s t => decide (s < t)

end Violation
end ApiTree
