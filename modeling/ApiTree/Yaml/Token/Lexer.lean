import ApiTree.Yaml.Token.Property
import ApiTree.Yaml.Token.Scalar

/-!
# From text to tokens

The lexer reads one token at a time and keeps what the layout of the text implies: how deep it stands
in brackets, the columns at which the open blocks started, and the places where a key may have
started. A key shows only by the colon after it; the tokens that open it are then put where it
started, so a possible key is remembered until its line ends or 1024 characters have passed.

`Token.ofText` ends with the end of the text or, where no token can be read, with
`Token.invalid`.
-/

set_option autoImplicit false

namespace ApiTree.Yaml

/-- A place where a key may have started. It must be one when it starts a line of a block. -/
structure KeyPlace where
  /-- Number of tokens before the place. -/
  number : Nat
  required : Bool
  index : Nat
  line : Nat
  column : Nat
  deriving Inhabited

/-- The state of reading. -/
structure Lexer where
  cursor : Cursor
  /-- Depth of brackets. -/
  flow : Nat
  /-- Tokens read so far, the last one first, and their number. -/
  tokens : List Token
  count : Nat
  /-- Column of the innermost open block, and those of the blocks around it. -/
  indent : Int
  indents : List Int
  /-- A key may start at the next token. -/
  allowKey : Bool
  /-- The possible key at each depth of brackets. -/
  keys : List (Nat × KeyPlace)
  deriving Inhabited

namespace Lexer

/-- The state at the start of a text. -/
def start (text : List Char) : Lexer :=
  ⟨.start text, 0, [], 0, -1, [], true, []⟩

/-- The text breaks a rule of tokens. -/
def refuse {α : Type} : Except Error α := .error (.problem .token)

/-- Add a token at the end. -/
def push (l : Lexer) (t : Token) : Lexer :=
  { l with tokens := t :: l.tokens, count := l.count + 1 }

/-- Insert a token before the one with the given number. -/
def insertAt (l : Lexer) (number : Nat) (t : Token) : Lexer :=
  { l with tokens := l.tokens.insertIdx (l.count - number) t, count := l.count + 1 }

/-- Close the blocks that stand deeper than `column`. Inside brackets layout does not count. -/
def closeBlocks (l : Lexer) (column : Int) : Lexer :=
  if l.flow ≠ 0 then l else go l l.indents
where
  go (l : Lexer) : List Int → Lexer
    | [] => l
    | outer :: rest =>
      if l.indent > column then go { l.push .blockEnd with indent := outer, indents := rest } rest
      else l

/-- Open a block at `column` unless one is open there. -/
def openBlock (l : Lexer) (column : Nat) (before : Nat) (t : Token) : Lexer :=
  if l.indent < column then
    { l.insertAt before t with indent := column, indents := l.indent :: l.indents }
  else l

/-- Forget the possible keys that can no longer be keys; none of them may be required. -/
def dropStaleKeys (l : Lexer) : Except Error Lexer :=
  let stale (e : Nat × KeyPlace) : Bool :=
    e.2.line ≠ l.cursor.line || l.cursor.index > e.2.index + 1024
  if l.keys.any fun e => stale e && e.2.required then refuse
  else .ok { l with keys := l.keys.filter (!stale ·) }

/-- Forget the possible key at this depth; it must not be required. -/
def dropKey (l : Lexer) : Except Error Lexer :=
  match l.keys.lookup l.flow with
  | some k => if k.required then refuse else .ok { l with keys := l.keys.filter (·.1 != l.flow) }
  | none => .ok l

/-- Remember that a key may start here, if one may. -/
def noteKey (l : Lexer) : Except Error Lexer :=
  if l.allowKey then do
    let required := l.flow == 0 && l.indent == l.cursor.column
    let l ← l.dropKey
    let c := l.cursor
    return { l with keys := (l.flow, ⟨l.count, required, c.index, c.line, c.column⟩) :: l.keys }
  else .ok l

/-- Skip blanks, line breaks and comments. A new line of a block may start a key. -/
def skipGap (l : Lexer) : Lexer :=
  go l.cursor.rest
    (if l.cursor.index = 0 && l.cursor.isAt '\uFEFF' then { l with cursor := l.cursor.advance } else l)
where
  go : List Char → Lexer → Lexer
    | [], l => l
    | _ :: fuel, l =>
      let c := l.cursor.skipWhile (· == ' ')
      let c := if c.isAt '#' then c.skipWhile (!isBreak ·) else c
      if c.peek.any isBreak then
        go fuel { l with cursor := c.lineBreak.2, allowKey := l.allowKey || l.flow == 0 }
      else { l with cursor := c }

/-- Add a token of `width` characters. -/
def take (l : Lexer) (t : Token) (width : Nat) : Lexer :=
  { l.push t with cursor := l.cursor.skip width }

/-- The end of the text. -/
def finish (l : Lexer) : Except Error Lexer := do
  let l ← (l.closeBlocks (-1)).dropKey
  return { l.push .endOfText with allowKey := false, keys := [] }

/-- A directive. -/
def directive (l : Lexer) : Except Error Lexer := do
  let l ← (l.closeBlocks (-1)).dropKey
  let (t, c) ← Property.directive l.cursor
  return { l.push t with cursor := c, allowKey := false }

/-- A marker between documents. -/
def marker (l : Lexer) (t : Token) : Except Error Lexer := do
  let l ← (l.closeBlocks (-1)).dropKey
  return { l.take t 3 with allowKey := false }

/-- An opening bracket. -/
def openFlow (l : Lexer) (t : Token) : Except Error Lexer := do
  let l ← l.noteKey
  return { l.take t 1 with flow := l.flow + 1, allowKey := true }

/-- A closing bracket. -/
def closeFlow (l : Lexer) (t : Token) : Except Error Lexer := do
  let l ← l.dropKey
  return { l.take t 1 with flow := l.flow - 1, allowKey := false }

/-- A comma between brackets. -/
def flowEntry (l : Lexer) : Except Error Lexer := do
  let l ← { l with allowKey := true }.dropKey
  return l.take .flowEntry 1

/-- The hyphen of a sequence entry. -/
def blockEntry (l : Lexer) : Except Error Lexer := do
  let l ←
    if l.flow ≠ 0 then .ok l
    else if l.allowKey then .ok (l.openBlock l.cursor.column l.count .blockSequenceStart)
    else refuse
  let l ← { l with allowKey := true }.dropKey
  return l.take .blockEntry 1

/-- The question mark of a key. -/
def explicitKey (l : Lexer) : Except Error Lexer := do
  let l ←
    if l.flow ≠ 0 then .ok l
    else if l.allowKey then .ok (l.openBlock l.cursor.column l.count .blockMappingStart)
    else refuse
  let l ← { l with allowKey := l.flow == 0 }.dropKey
  return l.take .key 1

/-- The colon of a value. The possible key at this depth, if there is one, is a key. -/
def value (l : Lexer) : Except Error Lexer := do
  match l.keys.lookup l.flow with
  | some k =>
    let l := { l with keys := l.keys.filter (·.1 != l.flow) }.insertAt k.number .key
    let l := if l.flow = 0 then l.openBlock k.column k.number .blockMappingStart else l
    return { l with allowKey := false }.take .value 1
  | none =>
    let l ←
      if l.flow ≠ 0 then .ok l
      else if l.allowKey then .ok (l.openBlock l.cursor.column l.count .blockMappingStart)
      else refuse
    let l ← { l with allowKey := l.flow == 0 }.dropKey
    return l.take .value 1

/-- An anchor, alias or tag, read by `read`. -/
def property (l : Lexer) (read : Cursor → Except Error (Token × Cursor)) : Except Error Lexer := do
  let l ← l.noteKey
  let (t, c) ← read l.cursor
  return { l.push t with cursor := c, allowKey := false }

/-- A block of lines. -/
def blockScalar (l : Lexer) (folded : Bool) : Except Error Lexer := do
  let l ← { l with allowKey := true }.dropKey
  let (text, c) ← Scalar.block folded l.indent l.cursor
  return { l.push (.scalar (String.ofList text) false) with cursor := c }

/-- Text in quotes. -/
def quotedScalar (l : Lexer) (double : Bool) : Except Error Lexer := do
  let l ← l.noteKey
  let (text, c) ← Scalar.quoted double l.cursor
  return { l.push (.scalar (String.ofList text) false) with cursor := c, allowKey := false }

/-- Plain text. -/
def plainScalar (l : Lexer) : Except Error Lexer := do
  let l ← l.noteKey
  let (text, c, broken) := Scalar.plain (l.flow ≠ 0) (l.indent + 1) l.cursor
  return { l.push (.scalar (String.ofList text) true) with cursor := c, allowKey := broken }

/-- Plain text may start with the character `ch`, where `next` follows. -/
def startsPlain (flow : Bool) (ch : Char) (next : Option Char) : Bool :=
  !("-?:,[]\x7b\x7d#&*!|>'\"%@\x60".toList.contains ch || atBlank (some ch)) ||
    (!atBlank next && (ch = '-' || (!flow && (ch = '?' || ch = ':'))))

/-- Read the next token after the blanks before it. -/
def step (l : Lexer) : Except Error Lexer := do
  let l ← l.skipGap.dropStaleKeys
  let c := l.cursor
  let l := l.closeBlocks c.column
  let inFlow := l.flow != 0
  match c.rest with
  | [] => l.finish
  | ch :: after =>
    let next := after.head?
    if ch = '%' && c.column = 0 then l.directive
    else if ch = '-' && c.column = 0 && c.atMarker then l.marker .documentStart
    else if ch = '.' && c.column = 0 && c.atMarker then l.marker .documentEnd
    else if ch = '[' then l.openFlow .flowSequenceStart
    else if ch = '{' then l.openFlow .flowMappingStart
    else if ch = ']' then l.closeFlow .flowSequenceEnd
    else if ch = '}' then l.closeFlow .flowMappingEnd
    else if ch = ',' then l.flowEntry
    else if ch = '-' && atBlank next then l.blockEntry
    else if ch = '?' && (inFlow || atBlank next) then l.explicitKey
    else if ch = ':' && (inFlow || atBlank next) then l.value
    else if ch = '*' then
      l.property fun c => do let (n, c) ← Property.anchorName c; return (.alias n, c)
    else if ch = '&' then
      l.property fun c => do let (n, c) ← Property.anchorName c; return (.anchor n, c)
    else if ch = '!' then
      l.property fun c => do let (t, c) ← Property.tag c; return (.tag t, c)
    else if ch = '|' && !inFlow then l.blockScalar false
    else if ch = '>' && !inFlow then l.blockScalar true
    else if ch = '\x27' then l.quotedScalar false
    else if ch = '"' then l.quotedScalar true
    else if startsPlain inFlow ch next then l.plainScalar
    else refuse

/-- Read all tokens. Each step but the last reads one character at least. -/
def run : Nat → Lexer → List Token
  | 0, l => l.tokens.reverse
  | fuel + 1, l =>
    match l.step with
    | .error e => (Token.invalid e :: l.tokens).reverse
    | .ok l => if l.tokens.head? = some .endOfText then l.tokens.reverse else run fuel l

end Lexer

/-- The tokens of a text. -/
def Token.ofText (text : List Char) : List Token :=
  (Lexer.start text).run (text.length + 1)

end ApiTree.Yaml
