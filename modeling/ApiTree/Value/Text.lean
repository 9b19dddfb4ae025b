import ApiTree.Failure
import ApiTree.Text.Literal
import ApiTree.Text.Numeral
import ApiTree.Value.Basic

/-!
# Values as text

`Value.literal` is the form in which messages show a value: text in quotes, a sequence in brackets,
a mapping in braces. `Value.text` is the form that a value takes where text is needed, such as a key
of a document; it differs from the literal only for text itself and for dates and times. A value that
holds an integer with more digits than a numeral may have has no text (`Value.toText`).
-/

set_option autoImplicit false

namespace ApiTree.Value

mutual

/-- The value as messages show it. -/
def literal : Value → String
  | .null => "None"
  | .bool b => if b then "True" else "False"
  | .int i => toString i
  | .float x => x.render
  | .str s => Text.literal s
  | .date d => d.literal
  | .timestamp t => t.literal
  | .bytes bs => Text.byteLiteral bs
  | .seq items => "[" ++ String.intercalate ", " (literals items) ++ "]"
  | .map entries => "\x7b" ++ String.intercalate ", " (entryLiterals entries) ++ "\x7d"
  | .set [] => "set()"
  | .set members => "\x7b" ++ String.intercalate ", " (literals members) ++ "\x7d"
  | .pair a b => "(" ++ literal a ++ ", " ++ literal b ++ ")"

/-- The values of a list as messages show them. -/
def literals : List Value → List String
  | [] => []
  | v :: vs => literal v :: literals vs

/-- The entries of a mapping as messages show them. -/
def entryLiterals : List (Value × Value) → List String
  | [] => []
  | (k, v) :: es => (literal k ++ ": " ++ literal v) :: entryLiterals es

end

/-- The value where text is needed. -/
def text : Value → String
  | .str s => s
  | .date d => d.render
  | .timestamp t => t.render " "
  | v => v.literal

mutual

/-- The value can be written out: each integer in it has no more digits than a numeral may have. -/
def hasLiteral : Value → Bool
  | .int i => i.natAbs < Nat.pow 10 Text.maxDigits
  | .seq items => itemsHaveLiteral items
  | .map entries => entriesHaveLiteral entries
  | .set members => itemsHaveLiteral members
  | .pair a b => hasLiteral a && hasLiteral b
  | _ => true

/-- The values of a list can be written out. -/
def itemsHaveLiteral : List Value → Bool
  | [] => true
  | v :: vs => hasLiteral v && itemsHaveLiteral vs

/-- The keys and values of entries can be written out. -/
def entriesHaveLiteral : List (Value × Value) → Bool
  | [] => true
  | (k, v) :: es => hasLiteral k && hasLiteral v && entriesHaveLiteral es

end

/-- The text of a value that can be written out. -/
def toText (v : Value) : Except Failure String :=
  if v.hasLiteral then .ok v.text else .error .badValue

/-- A list of texts as messages show it. -/
def literalOfTexts (texts : List String) : String :=
  (Value.seq (texts.map .str)).literal

end ApiTree.Value
