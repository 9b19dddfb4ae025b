import ApiTree.Yaml.Cursor
import ApiTree.Yaml.Error

/-!
# Scalars

The three notations of a scalar: plain text, text in quotes, and a block of indented lines. Each
function reads one scalar from its first character and gives its text and the place after it. In
plain and quoted text a single line break counts as a space, and further breaks count as themselves.

A loop takes the characters still to be read as its fuel; each round reads one at least.
-/

set_option autoImplicit false

namespace ApiTree.Yaml.Scalar

/-- A break between two lines of text as it counts there: alone it is a space, before further breaks
it is nothing. A line or paragraph separator counts as itself. -/
def foldBreak (first further : List Char) : List Char :=
  if first ≠ ['\n'] then first ++ further
  else if further.isEmpty then [' ']
  else further

/-! ## Plain text -/

/-- Length of the run of plain text without blanks. Brackets, commas and question marks end it
inside brackets. -/
def plainRun (flow : Bool) : List Char → Nat
  | [] => 0
  | c :: cs =>
    if atBlank (some c) then 0
    else if c = ':' && (atBlank cs.head? || (flow && cs.head?.any fun d =>
        d = ',' || d = '[' || d = ']' || d = '{' || d = '}')) then 0
    else if flow && (c = ',' || c = '?' || c = '[' || c = ']' || c = '{' || c = '}') then 0
    else plainRun flow cs + 1

/-- Blank lines inside plain text: their breaks and the place after them; none before a document
marker. -/
def plainBreaks : List Char → Cursor → List Char → Option (List Char) × Cursor
  | [], c, breaks => (some breaks, c)
  | _ :: fuel, c, breaks =>
    if c.isAt ' ' then plainBreaks fuel c.advance breaks
    else if c.peek.any isBreak then
      let (b, c) := c.lineBreak
      if c.atMarker then (none, c) else plainBreaks fuel c (breaks ++ b)
    else (some breaks, c)

/-- The gap after a run of plain text: what it counts as, the place after it, and whether it breaks
the line. The gap counts as nothing where the scalar ends. -/
def plainGap (c : Cursor) : List Char × Cursor × Bool :=
  let (spaces, c) := c.span (· == ' ')
  if c.peek.any isBreak then
    let (b, c) := c.lineBreak
    if c.atMarker then ([], c, true)
    else
      match plainBreaks c.rest c [] with
      | (none, c) => ([], c, true)
      | (some breaks, c) => (foldBreak b breaks, c, true)
  else (spaces, c, false)

/-- Plain text from a run on, after `text` and the gap `gap`. -/
def plainFrom (flow : Bool) (indent : Int) :
    List Char → Cursor → List Char → List Char → Bool → List Char × Cursor × Bool
  | [], c, text, _, broken => (text, c, broken)
  | _ :: fuel, c, text, gap, broken =>
    let length := if c.isAt '#' then 0 else plainRun flow c.rest
    if length = 0 then (text, c, broken)
    else
      let text := text ++ gap ++ c.rest.take length
      let (gap, c, broken) := plainGap (c.skip length)
      if gap.isEmpty || c.isAt '#' || (!flow && c.column < indent) then (text, c, broken)
      else plainFrom flow indent fuel c text gap broken

/-- A plain scalar: its text, the place after it and the blanks that follow, and whether a line
break is among those. Outside brackets a line indented by less than `indent` ends it. -/
def plain (flow : Bool) (indent : Int) (c : Cursor) : List Char × Cursor × Bool :=
  plainFrom flow indent c.rest c [] [] false

/-! ## Quoted text -/

/-- The character that a backslash and the given character stand for. -/
def escaped? (c : Char) : Option Char :=
  [('0', '\x00'), ('a', '\x07'), ('b', '\x08'), ('t', '\t'), ('\t', '\t'), ('n', '\n'),
   ('v', '\x0b'), ('f', '\x0c'), ('r', '\r'), ('e', '\x1b'), (' ', ' '), ('"', '"'), ('\\', '\\'),
   ('/', '/'), ('N', '\u0085'), ('_', '\u00a0'), ('L', '\u2028'), ('P', '\u2029')].lookup c

/-- Number of hexadecimal digits after a backslash and the given character. -/
def codeLength? (c : Char) : Option Nat :=
  [('x', 2), ('u', 4), ('U', 8)].lookup c

/-- The character with the given code; there are no codes beyond the last character, and codes of
32 bits are refused earlier as too large. -/
def charOfCode (code : Nat) : Except Error Char :=
  if code < 0x110000 then .ok (Char.ofNat code)
  else if code < 0x80000000 then .error (.failure .badValue)
  else .error (.failure .tooLarge)

/-- Blank lines inside quoted text: their breaks and the place of the next character that is not
blank. A document marker must not stand at the start of a line. -/
def quotedBreaks : List Char → Cursor → List Char → Except Error (List Char × Cursor)
  | [], c, breaks => .ok (breaks, c)
  | _ :: fuel, c, breaks =>
    if c.atMarker then .error (.problem .token)
    else
      let c := c.skipWhile fun ch => ch = ' ' || ch = '\t'
      if c.peek.any isBreak then
        let (b, c) := c.lineBreak
        quotedBreaks fuel c (breaks ++ b)
      else .ok (breaks, c)

/-- Blanks inside quoted text: what they count as and the place after them. -/
def quotedGap (c : Cursor) : Except Error (List Char × Cursor) :=
  let (spaces, c) := c.span fun ch => ch = ' ' || ch = '\t'
  match c.peek with
  | none => .error (.problem .token)
  | some ch =>
    if isBreak ch then do
      let (b, c) := c.lineBreak
      let (breaks, c) ← quotedBreaks c.rest c []
      return (foldBreak b breaks, c)
    else .ok (spaces, c)

/-- Quoted text up to the next blank or the closing quote. -/
def quotedRun (double : Bool) :
    List Char → Cursor → List Char → Except Error (List Char × Cursor)
  | [], c, text => .ok (text, c)
  | _ :: fuel, c, text =>
    let (run, c) := c.span fun ch =>
      !(ch = '\x27' || ch = '"' || ch = '\\' || atBlank (some ch))
    let text := text ++ run
    match c.rest with
    | ch :: after =>
      if !double && ch = '\x27' && after.head? == some '\x27' then
        quotedRun double fuel (c.skip 2) (text ++ [ch])
      else if (double && ch = '\x27') || (!double && (ch = '"' || ch = '\\')) then
        quotedRun double fuel c.advance (text ++ [ch])
      else if double && ch = '\\' then
        let c := c.advance
        match after with
        | [] => .error (.problem .token)
        | e :: digits =>
          match escaped? e, codeLength? e with
          | some r, _ => quotedRun double fuel c.advance (text ++ [r])
          | none, some length =>
            let code := digits.take length
            if code.length = length && code.all isHexDigit then do
              let r ← charOfCode (hexNumber code)
              quotedRun double fuel (c.skip (length + 1)) (text ++ [r])
            else .error (.problem .token)
          | none, none =>
            if isBreak e then do
              let (_, c) := c.lineBreak
              let (breaks, c) ← quotedBreaks c.rest c []
              quotedRun double fuel c (text ++ breaks)
            else .error (.problem .token)
      else .ok (text, c)
    | [] => .ok (text, c)

/-- Quoted text up to its closing quote. -/
def quotedFrom (double : Bool) :
    List Char → Cursor → List Char → Except Error (List Char × Cursor)
  | [], _, _ => .error (.problem .token)
  | _ :: fuel, c, text => do
    let (text, c) ← quotedRun double c.rest c text
    if c.isAt (if double then '"' else '\x27') then return (text, c.advance)
    else
      let (gap, c) ← quotedGap c
      quotedFrom double fuel c (text ++ gap)

/-- A scalar in quotes: its text and the place after the closing quote. -/
def quoted (double : Bool) (c : Cursor) : Except Error (List Char × Cursor) :=
  quotedFrom double c.rest c.advance []

/-! ## Blocks of lines -/

/-- What happens to the line breaks at the end of a block: all but one are dropped, all are dropped,
or all are kept. -/
inductive Chomping where
  | clip
  | strip
  | keep
  deriving DecidableEq, Repr

/-- The chomping that an indicator character asks for. -/
def chomping? (c : Char) : Option Chomping :=
  if c = '+' then some .keep else if c = '-' then some .strip else none

/-- The explicit indentation that an indicator character gives. -/
def indentation? (c : Char) : Option Nat :=
  if c.isDigit then some (c.toNat - 48) else none

/-- What the next character means, and the place after it; the same place where it means nothing. -/
def indicator {α : Type} (meaning : Char → Option α) (c : Cursor) : Option α × Cursor :=
  match c.peek.bind meaning with
  | some a => (some a, c.advance)
  | none => (none, c)

/-- The place after the line of a header, on which only a comment may follow. -/
def headerEnd (c : Cursor) : Except Error Cursor := do
  if !atGap c.peek then .error (.problem .token)
  let c := c.skipWhile (· == ' ')
  let c := if c.isAt '#' then c.skipWhile (!isBreak ·) else c
  if !atLineEnd c.peek then .error (.problem .token)
  return c.lineBreak.2

/-- The header of a block: chomping and explicit indentation, in either order, and a comment. -/
def blockHeader (c : Cursor) : Except Error (Chomping × Option Nat × Cursor) := do
  let (chomping, c) := indicator chomping? c
  let (indent, c) := indicator indentation? c
  if indent = some 0 then .error (.problem .token)
  let (chomping, c) :=
    if chomping.isNone && indent.isSome then indicator chomping? c else (chomping, c)
  let c ← headerEnd c
  return (chomping.getD .clip, indent, c)

/-- The blank lines at the start of a block: their breaks, the greatest column that their spaces
reach, and the place after them. -/
def blockIndentation : List Char → Cursor → List Char → Nat → List Char × Nat × Cursor
  | [], c, breaks, widest => (breaks, widest, c)
  | _ :: fuel, c, breaks, widest =>
    if c.isAt ' ' then
      let c := c.advance
      blockIndentation fuel c breaks (max widest c.column)
    else if c.peek.any isBreak then
      let (b, c) := c.lineBreak
      blockIndentation fuel c (breaks ++ b) widest
    else (breaks, widest, c)

/-- Spaces up to the column of a block. -/
def blockMargin (indent : Nat) : Nat → Cursor → Cursor
  | 0, c => c
  | fuel + 1, c =>
    if c.column < indent && c.isAt ' ' then blockMargin indent fuel c.advance else c

/-- Blank lines inside a block, and the place where the next line of it starts. -/
def blockBreaks (indent : Nat) : List Char → Cursor → List Char → List Char × Cursor
  | [], c, breaks => (breaks, c)
  | _ :: fuel, c, breaks =>
    let c := blockMargin indent indent c
    if c.peek.any isBreak then
      let (b, c) := c.lineBreak
      blockBreaks indent fuel c (breaks ++ b)
    else (breaks, c)

/-- The lines of a block, after `text` and the line breaks `breaks`: the text up to the end of the
last line, the break that ends this line, the breaks after it, and the place after all. -/
def blockLines (folded : Bool) (indent : Nat) :
    List Char → Cursor → List Char → List Char → List Char →
      List Char × List Char × List Char × Cursor
  | [], c, text, last, breaks => (text, last, breaks, c)
  | _ :: fuel, c, text, last, breaks =>
    if c.column = indent && c.peek.isSome then
      let startsBlank := c.peek.any fun ch => ch = ' ' || ch = '\t'
      let (line, c) := c.span (!isBreak ·)
      let text := text ++ breaks ++ line
      let (last, c) := c.lineBreak
      let (breaks, c) := blockBreaks indent c.rest c []
      if c.column = indent && c.peek.isSome then
        let nextBlank := c.peek.any fun ch => ch = ' ' || ch = '\t'
        let joint :=
          if folded && last = ['\n'] && !startsBlank && !nextBlank then
            (if breaks.isEmpty then [' '] else [])
          else last
        blockLines folded indent fuel c (text ++ joint) [] breaks
      else (text, last, breaks, c)
    else (text, last, breaks, c)

/-- A block of lines that are indented deeper than `parent`: its text and the place after it. -/
def block (folded : Bool) (parent : Int) (c : Cursor) : Except Error (List Char × Cursor) := do
  let (chomping, explicit, c) ← blockHeader c.advance
  let least := (max 1 (parent + 1)).toNat
  let (breaks, indent, c) :=
    match explicit with
    | some n =>
      let indent := least + n - 1
      let (breaks, c) := blockBreaks indent c.rest c []
      (breaks, indent, c)
    | none =>
      let (breaks, widest, c) := blockIndentation c.rest c [] 0
      (breaks, max least widest, c)
  let (text, last, breaks, c) := blockLines folded indent c.rest c [] [] breaks
  let tail :=
    match chomping with
    | .clip => last
    | .strip => []
    | .keep => last ++ breaks
  return (text ++ tail, c)

end ApiTree.Yaml.Scalar
