import ApiTree.Yaml.Cursor
import ApiTree.Yaml.Tag

/-!
# Styles of scalars

Which notation a text takes when it is written: plain where the reader would take it for the same
text, else single quotes, and double quotes where a character or a line end could not be told
otherwise. Collections that hold anything are written as blocks, so that no scalar stands in brackets.
-/

set_option autoImplicit false

namespace ApiTree.Yaml

/-- The notation of a scalar. -/
inductive Style where
  | plain
  | single
  | double
  deriving DecidableEq, Repr

namespace Style

/-- A character that breaks a line of a scalar. -/
def isLineBreak (c : Char) : Bool :=
  c = '\n' || c = '\u0085' || c = '\u2028' || c = '\u2029'

/-- A character that stands for itself in a scalar. A byte order mark does not. -/
def isOrdinary (c : Char) : Bool :=
  let n := c.toNat
  c = '\n' || (0x20 ≤ n && n ≤ 0x7E) || n = 0x85 ||
    (0xA0 ≤ n && n ≤ 0xFFFD && n ≠ 0xFEFF) || (0x10000 ≤ n && n < 0x10FFFF)

/-- A blank or a null character. -/
def isGap (c : Char) : Bool := c = '\x00' || atBlank (some c)

/-- The text ends here or goes on with a blank. -/
def endsWord (next : Option Char) : Bool := next.all isGap

/-- Each character with the one before it and the one after it. -/
def neighbours (cs : List Char) : List (Option Char × Char × Option Char) :=
  (none :: cs.map some).zip (cs.zip ((cs.drop 1).map some ++ [none]))

/-- A character acts as an indicator between the two around it. -/
def isIndicator (before : Option Char) (c : Char) (next : Option Char) : Bool :=
  match before with
  | none =>
    "#,[]\x7b\x7d&*!|>'\"%@\x60".toList.contains c ||
      ((c = '?' || c = ':' || c = '-') && endsWord next)
  | some b => (c = ':' && endsWord next) || (c = '#' && isGap b)

/-- The text holds something that a reader would not take for plain text. -/
def hasIndicator (cs : List Char) : Bool :=
  "---".toList.isPrefixOf cs || "...".toList.isPrefixOf cs ||
    (neighbours cs).any fun (b, c, n) => isIndicator b c n

/-- The text has more than one line. -/
def isMultiline (cs : List Char) : Bool := cs.any isLineBreak

/-- The text starts or ends with a space or a line break. -/
def hasLooseEnd (cs : List Char) : Bool :=
  let loose (c : Char) : Bool := c = ' ' || isLineBreak c
  cs.head?.any loose || cs.getLast?.any loose

/-- A character that satisfies `p` stands directly before one that satisfies `q`. -/
def hasPair (p q : Char → Bool) (cs : List Char) : Bool :=
  (cs.zip (cs.drop 1)).any fun (a, b) => p a && q b

/-- The text can stand in single quotes. -/
def allowsSingle (cs : List Char) : Bool :=
  cs.all isOrdinary && !hasPair isLineBreak (· == ' ') cs && !hasPair (· == ' ') isLineBreak cs

/-- The text can stand plain, apart from what type it would then have. -/
def allowsPlain (cs : List Char) : Bool :=
  allowsSingle cs && !hasLooseEnd cs && !isMultiline cs && !hasIndicator cs

/-- The style of a scalar: `plainTag` tells whether its plain text has its type. A key on the line of
its value has no line breaks in single quotes. -/
def choose (cs : List Char) (plainTag simpleKey : Bool) : Style :=
  if plainTag && !(simpleKey && (cs.isEmpty || isMultiline cs)) && (cs.isEmpty || allowsPlain cs) then
    .plain
  else if allowsSingle cs && !(simpleKey && isMultiline cs) then .single
  else .double

end Style
end ApiTree.Yaml
