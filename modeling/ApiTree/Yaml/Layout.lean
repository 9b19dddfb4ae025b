import ApiTree.Text.Literal
import ApiTree.Yaml.Style

/-!
# Laying out YAML text

The text written so far with the column of its end. Long scalars are broken at single spaces once
they have passed the eightieth column, and go on at the indentation of their place.
-/

set_option autoImplicit false

namespace ApiTree.Yaml

/-- A text under way. -/
structure Layout where
  /-- The characters written, the last one first. -/
  out : List Char
  column : Nat
  /-- The text ends with blanks, or nothing is written on the line. -/
  blank : Bool
  /-- Only blanks and indicators of blocks are written on the line. -/
  fresh : Bool
  deriving Inhabited

namespace Layout

/-- Nothing written. -/
def start : Layout := ⟨[], 0, true, true⟩

/-- The text as a string. -/
def toText (l : Layout) : String := String.ofList l.out.reverse

/-- The column after which lines are broken. -/
def width : Nat := 80

/-- Write characters of one line. -/
def put (l : Layout) (cs : List Char) : Layout :=
  { l with out := cs.reverse ++ l.out, column := l.column + cs.length }

/-- Write a line break. -/
def breakLine (l : Layout) (c : Char) : Layout := ⟨c :: l.out, 0, true, true⟩

/-- Go to the indentation, on a new line unless this one has nothing but indicators before it. -/
def indent (l : Layout) (n : Nat) : Layout :=
  let l :=
    if !l.fresh || l.column > n || (l.column == n && !l.blank) then l.breakLine '\n' else l
  if l.column < n then { l with blank := true }.put (List.replicate (n - l.column) ' ') else l

/-- Write an indicator, after a space where one is needed. -/
def indicator (l : Layout) (cs : List Char) (needsBlank blankAfter keepsFresh : Bool) : Layout :=
  let cs := if l.blank || !needsBlank then cs else ' ' :: cs
  { l with blank := blankAfter, fresh := l.fresh && keepsFresh }.put cs

/-- Write line breaks inside quotes: a newline is doubled, since a single one counts as a space. -/
def putBreaks (l : Layout) (breaks : List Char) (n : Nat) : Layout :=
  let l := if breaks.head? = some '\n' then l.breakLine '\n' else l
  (breaks.foldl breakLine l).indent n

/-- Segments of spaces, of line breaks and of other characters. -/
def segments (cs : List Char) : List (List Char) :=
  let sort (c : Char) : Nat := if c = ' ' then 0 else if Style.isLineBreak c then 1 else 2
  cs.splitBy fun a b => sort a == sort b

/-- Write plain text; long lines are broken if `split`. -/
def putPlain (l : Layout) (cs : List Char) (split : Bool) (n : Nat) : Layout :=
  if cs.isEmpty then l
  else
    let l := if l.blank then l else l.put [' ']
    let l := { l with blank := false, fresh := false }
    (segments cs).foldl (fun l s =>
      if s = [' '] && split && l.column > width then
        { l.indent n with blank := false, fresh := false }
      else l.put s) l

/-- Write text in single quotes; long lines are broken at inner spaces if `split`. -/
def putSingle (l : Layout) (cs : List Char) (split : Bool) (n : Nat) : Layout :=
  let l := l.indicator ['\x27'] true false false
  let pieces := segments cs
  let last := pieces.length - 1
  let l := (pieces.zipIdx).foldl (fun l (s, i) =>
    if s.head?.any Style.isLineBreak then l.putBreaks s n
    else if s = [' '] && split && l.column > width && i ≠ 0 && i ≠ last then l.indent n
    else l.put (s.flatMap fun c => if c = '\x27' then ['\x27', '\x27'] else [c])) l
  l.indicator ['\x27'] false false false

/-- The character after a backslash that stands for the given one in double quotes. -/
def escape? (c : Char) : Option Char :=
  [('\x00', '0'), ('\x07', 'a'), ('\x08', 'b'), ('\t', 't'), ('\n', 'n'), ('\x0b', 'v'),
   ('\x0c', 'f'), ('\r', 'r'), ('\x1b', 'e'), ('"', '"'), ('\\', '\\'), ('\u0085', 'N'),
   ('\u00a0', '_'), ('\u2028', 'L'), ('\u2029', 'P')].lookup c

/-- A character that stands for itself in double quotes. -/
def isLiteral (c : Char) : Bool :=
  let n := c.toNat
  !(c = '"' || c = '\\' || Style.isLineBreak c || n = 0xFEFF) &&
    ((0x20 ≤ n && n ≤ 0x7E) || (0xA0 ≤ n && n ≤ 0xFFFD))

/-- A character in double quotes that does not stand for itself. -/
def escaped (c : Char) : List Char :=
  match escape? c with
  | some e => ['\\', e]
  | none =>
    let digits (k : Nat) : List Char := (Text.hexDigits k c.toNat).map Char.toUpper
    if c.toNat ≤ 0xFF then '\\' :: 'x' :: digits 2
    else if c.toNat ≤ 0xFFFF then '\\' :: 'u' :: digits 4
    else '\\' :: 'U' :: digits 8

/-- Write text in double quotes from a character on, of which `held` has been passed but not written
(the last one first). A long line is broken before a space, after an escape, or after the first
character that follows one; a space that then starts a line is escaped. -/
def putDoubleFrom (split : Bool) (n : Nat) : List Char → List Char → Bool → Layout → Layout
  | [], held, _, l => l.put held.reverse
  | c :: cs, held, first, l =>
    let mayBreak := split && !first && !cs.isEmpty
    let broken (l : Layout) : Layout :=
      { (l.put ['\\']).indent n with blank := false, fresh := false }
    if isLiteral c then
      if mayBreak && (c = ' ' || held.isEmpty) && l.column + held.length > width then
        let l := broken (l.put held.reverse)
        putDoubleFrom split n cs [c] false (if c = ' ' then l.put ['\\'] else l)
      else putDoubleFrom split n cs (c :: held) false l
    else
      let l := (l.put held.reverse).put (escaped c)
      if mayBreak && l.column > width + 1 then
        let l := broken l
        putDoubleFrom split n cs [] false (if cs.head? = some ' ' then l.put ['\\'] else l)
      else putDoubleFrom split n cs [] false l

/-- Write text in double quotes; long lines are broken if `split`. -/
def putDouble (l : Layout) (cs : List Char) (split : Bool) (n : Nat) : Layout :=
  (putDoubleFrom split n cs [] true (l.indicator ['"'] true false false)).indicator ['"']
    false false false

end Layout
end ApiTree.Yaml
