import ApiTree.Value.Text
import ApiTree.Yaml.Layout

/-!
# Writing YAML

A value of JSON as a YAML document in block style. Entries of a mapping stand one below the other, and
a list that is the value of an entry is not indented further. A key stands on the line of its value
unless it is empty, has line breaks or is too long; it then stands after a question mark.
-/

set_option autoImplicit false

namespace ApiTree.Yaml

/-- A floating-point number. An exponent has a number with a point before it. -/
def floatText (x : Binary64) : String :=
  match x with
  | .nan => ".nan"
  | .infinity negative => if negative then "-.inf" else ".inf"
  | x =>
    let cs := x.render.toList
    if cs.contains '.' then String.ofList cs
    else String.ofList (cs.takeWhile (· != 'e') ++
      (if cs.contains 'e' then ['.', '0'] else []) ++ cs.dropWhile (· != 'e'))

/-- Text and type of a scalar. -/
def scalarOf : Value → List Char × Tag
  | .null => ("null".toList, .null)
  | .bool b => ((if b then "true" else "false").toList, .bool)
  | .int i => ((toString i).toList, .int)
  | .float x => ((floatText x).toList, .float)
  | v => (v.text.toList, .str)

/-- The greatest length of a key on the line of its value, the five characters of its tag included. -/
def maxKeyLength : Nat := 128

/-- The key stands on the line of its value. -/
def isSimpleKey (key : Value) : Bool :=
  let (text, tag) := scalarOf key
  let tagLength :=
    match tag with
    | .null | .bool => 6
    | .float => 7
    | _ => 5
  tagLength + text.length < maxKeyLength && !text.isEmpty && !Style.isMultiline text

/-- Write a scalar in its style. -/
def putScalar (l : Layout) (v : Value) (simpleKey : Bool) (n : Nat) : Layout :=
  let (text, tag) := scalarOf v
  match Style.choose text (Tag.ofPlain text == tag) simpleKey with
  | .plain => l.putPlain text (!simpleKey) n
  | .single => l.putSingle text (!simpleKey) n
  | .double => l.putDouble text (!simpleKey) n

mutual

/-- Write a value at the indentation `n` of the collection around it; none for the document itself.
`inMapping` tells that it is a key or the value of an entry. -/
def putValue (n : Option Nat) (inMapping : Bool) : Value → Layout → Layout
  | .seq [], l => (l.indicator ['['] true true false).indicator [']'] false false false
  | .map [], l => (l.indicator ['{'] true true false).indicator ['}'] false false false
  | .seq items, l =>
    let inner :=
      match n with
      | none => 0
      | some n => if inMapping && !l.fresh then n else n + 2
    putItems inner items l
  | .map entries, l => putEntries ((n.map (· + 2)).getD 0) entries l
  | v, l => putScalar l v false ((n.getD 0) + 2)

/-- Write the elements of a list. -/
def putItems (n : Nat) : List Value → Layout → Layout
  | [], l => l
  | v :: vs, l => putItems n vs (putValue (some n) false v ((l.indent n).indicator ['-'] true false true))

/-- Write the entries of a mapping. -/
def putEntries (n : Nat) : List (Value × Value) → Layout → Layout
  | [], l => l
  | (k, v) :: es, l =>
    let l := l.indent n
    let l :=
      if isSimpleKey k then (putScalar l k true (n + 2)).indicator [':'] false false false
      else
        let l := putScalar (l.indicator ['?'] true false true) k false (n + 2)
        (l.indent n).indicator [':'] true false true
    putEntries n es (putValue (some n) true v l)

end

/-- The value is a scalar that is written plain. -/
def isPlainScalar (v : Value) : Bool :=
  match v with
  | .seq _ | .map _ => false
  | v =>
    let (text, tag) := scalarOf v
    Style.choose text (Tag.ofPlain text == tag) false == .plain

/-- A value of JSON as the text of a YAML document. A plain scalar could go on, so that a document
which is one has a marker at its end. -/
def render (v : Value) : String :=
  let text := ((putValue none false v .start).indent 0).toText
  if isPlainScalar v then text ++ "...\n" else text

end ApiTree.Yaml
