import ApiTree.Failure
import ApiTree.Value.Text

/-!
# Writing JSON

`Json.plain` turns a value into one of JSON: pairs become lists, keys become texts, and every value
that JSON does not have becomes its text; an integer with more digits than a numeral may have cannot be
written. `Json.write` lays a value of JSON out over lines, each level two blanks deeper than the one
around it; only quotes, backslashes and control characters are escaped.
-/

set_option autoImplicit false

namespace ApiTree.Json

/-- One character of a text. -/
def escape (c : Char) : List Char :=
  if c = '"' then ['\\', '"']
  else if c = '\\' then ['\\', '\\']
  else if c = '\n' then ['\\', 'n']
  else if c = '\r' then ['\\', 'r']
  else if c = '\t' then ['\\', 't']
  else if c = '\x08' then ['\\', 'b']
  else if c = '\x0c' then ['\\', 'f']
  else if c.toNat < 32 then '\\' :: 'u' :: Text.hexDigits 4 c.toNat
  else [c]

/-- A text in quotes. -/
def quote (s : String) : List Char := '"' :: (s.toList.flatMap escape ++ ['"'])

/-- A floating-point number; the ones that are not finite have names. -/
def float (x : Binary64) : String :=
  match x with
  | .nan => "NaN"
  | .infinity negative => if negative then "-Infinity" else "Infinity"
  | x => x.render

/-- The text of a key; only texts, numbers, truth values and null have one. -/
def keyText (key : Value) : Except Failure String :=
  match key with
  | .str s => .ok s
  | .int i => (Value.int i).toText
  | .float x => .ok (float x)
  | .bool b => .ok (if b then "true" else "false")
  | .null => .ok "null"
  | _ => .error .wrongKind

mutual

/-- The value of JSON that stands for a value. -/
def plain : Value → Except Failure Value
  | .seq items => (plainItems items).map .seq
  | .map entries => (plainEntries entries).map .map
  | .pair a b => do return .seq [← plain a, ← plain b]
  | .date d => .ok (.str d.render)
  | .timestamp t => .ok (.str (t.render " "))
  | .bytes bs => .ok (.str (Value.bytes bs).literal)
  | .set members => (Value.set members).toText.map .str
  | .int i => if (Value.int i).hasLiteral then .ok (.int i) else .error .badValue
  | v => .ok v

/-- The elements of a list as values of JSON. -/
def plainItems : List Value → Except Failure (List Value)
  | [] => .ok []
  | v :: vs => do return (← plain v) :: (← plainItems vs)

/-- The entries of a mapping with keys as texts and values of JSON. -/
def plainEntries : List (Value × Value) → Except Failure (List (Value × Value))
  | [] => .ok []
  | (k, v) :: es => do return (.str (← keyText k), ← plain v) :: (← plainEntries es)

end

/-- A line break and the blanks that start a line at the given level. -/
def newline (level : Nat) : List Char := '\n' :: List.replicate (2 * level) ' '

mutual

/-- A value of JSON whose lines after the first stand at the given level. -/
def write (level : Nat) : Value → List Char
  | .null => "null".toList
  | .bool b => (if b then "true" else "false").toList
  | .int i => (toString i).toList
  | .float x => (float x).toList
  | .seq [] => ['[', ']']
  | .seq items => '[' :: (writeItems (level + 1) items ++ (newline level ++ [']']))
  | .map [] => ['{', '}']
  | .map entries => '{' :: (writeEntries (level + 1) entries ++ (newline level ++ ['}']))
  | v => quote v.text

/-- The elements of a list, each on a line of its own. -/
def writeItems (level : Nat) : List Value → List Char
  | [] => []
  | [v] => newline level ++ write level v
  | v :: vs => newline level ++ (write level v ++ ',' :: writeItems level vs)

/-- The entries of a mapping, each on a line of its own. -/
def writeEntries (level : Nat) : List (Value × Value) → List Char
  | [] => []
  | [(k, v)] => newline level ++ (quote k.text ++ ':' :: ' ' :: write level v)
  | (k, v) :: es =>
    newline level ++ (quote k.text ++ ':' :: ' ' :: (write level v ++ ',' :: writeEntries level es))

end

/-- A value as the text of a JSON document. -/
def render (v : Value) : Except Failure String :=
  (plain v).map fun p => String.ofList (write 0 p)

end ApiTree.Json
