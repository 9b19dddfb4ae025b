import ApiTree.Text.Numeral
import ApiTree.Value.Basic

/-!
# Reading JSON

The value of a JSON text. Besides the numbers of the format the names `NaN`, `Infinity` and
`-Infinity` are read; a number without point and exponent is an integer of any size up to 4300 digits.
Of entries with the same key the last one counts, at the place of the first.

The reader goes down the grammar. Its fuel is the length of the text: every value takes a character.
-/

set_option autoImplicit false

namespace ApiTree.Json

/-- Why a text has no value: it is not JSON, or an integer in it has too many digits. -/
inductive ReadError where
  | malformed
  | longInteger
  deriving DecidableEq, Repr, Inhabited

/-- A value that was read and the text after it. -/
abbrev Rest (α : Type) := Except ReadError (α × List Char)

/-- The text without the blanks at its start. -/
def skipBlanks (cs : List Char) : List Char :=
  cs.dropWhile fun c => c = ' ' || c = '\t' || c = '\n' || c = '\r'

/-- The value of a hexadecimal digit. -/
def hexDigit? (c : Char) : Option Nat := Text.digitIn? 16 c

/-- The number of four hexadecimal digits. -/
def hexQuad? (a b c d : Char) : Option Nat := Text.naturalIn? 16 [a, b, c, d]

/-- The character of a single code unit; half of a pair alone has none of its own. -/
def charOfUnit (unit : Nat) : Char :=
  if 0xD800 ≤ unit ∧ unit < 0xE000 then '\uFFFD' else Char.ofNat unit

/-- The character of two code units that form a pair. -/
def charOfPair? (high low : Nat) : Option Char :=
  if 0xD800 ≤ high ∧ high < 0xDC00 ∧ 0xDC00 ≤ low ∧ low < 0xE000 then
    some (Char.ofNat (0x10000 + (high - 0xD800) * 0x400 + (low - 0xDC00)))
  else none

/-- The character that a backslash and the given character stand for. -/
def unescape? (c : Char) : Option Char :=
  [('"', '"'), ('\\', '\\'), ('/', '/'), ('b', '\x08'), ('f', '\x0c'), ('n', '\n'), ('r', '\r'),
   ('t', '\t')].lookup c

/-- A text after its opening quote. -/
def readString : List Char → Option (List Char × List Char)
  | [] => none
  | '"' :: cs => some ([], cs)
  | '\\' :: 'u' :: a :: b :: c :: d :: '\\' :: 'u' :: e :: f :: g :: h :: cs =>
    match hexQuad? a b c d with
    | none => none
    | some unit =>
      match (hexQuad? e f g h).bind (charOfPair? unit) with
      | some ch => (readString cs).map fun p => (ch :: p.1, p.2)
      | none =>
        (readString ('\\' :: 'u' :: e :: f :: g :: h :: cs)).map fun p => (charOfUnit unit :: p.1, p.2)
  | '\\' :: 'u' :: a :: b :: c :: d :: cs =>
    match hexQuad? a b c d with
    | none => none
    | some unit => (readString cs).map fun p => (charOfUnit unit :: p.1, p.2)
  | '\\' :: c :: cs =>
    match unescape? c with
    | none => none
    | some ch => (readString cs).map fun p => (ch :: p.1, p.2)
  | c :: cs =>
    if c.toNat < 32 || c = '\\' then none else (readString cs).map fun p => (c :: p.1, p.2)

/-- The text after a word, if it starts with it. -/
def afterWord? (word : String) (cs : List Char) : Option (List Char) :=
  if word.toList.isPrefixOf cs then some (cs.drop word.length) else none

/-- Digits of a whole number: one zero, or digits that do not start with a zero. -/
def wholeDigits (cs : List Char) : List Char :=
  match cs with
  | '0' :: _ => ['0']
  | _ => cs.takeWhile Char.isDigit

/-- A point and digits at the start of the text; nothing where no digit follows the point. -/
def fractionPart (cs : List Char) : List Char :=
  match cs with
  | '.' :: rest =>
    let ds := rest.takeWhile Char.isDigit
    if ds.isEmpty then [] else '.' :: ds
  | _ => []

/-- An exponent at the start of the text; nothing where it has no digit. -/
def exponentPart (cs : List Char) : List Char :=
  match cs with
  | e :: rest =>
    if e = 'e' || e = 'E' then
      let sign := rest.takeWhile fun c => c = '+' || c = '-'
      let sign := sign.take 1
      let ds := (rest.drop sign.length).takeWhile Char.isDigit
      if ds.isEmpty then [] else e :: (sign ++ ds)
    else []
  | [] => []

/-- A number. -/
def readNumber (cs : List Char) : Rest Value :=
  let (negative, body) :=
    match cs with
    | '-' :: body => (true, body)
    | _ => (false, cs)
  let whole := wholeDigits body
  let rest := body.drop whole.length
  let fraction := fractionPart rest
  let rest := rest.drop fraction.length
  let exponent := exponentPart rest
  let rest := rest.drop exponent.length
  if whole.isEmpty then .error .malformed
  else if fraction.isEmpty && exponent.isEmpty then
    if whole.length > Text.maxDigits then .error .longInteger
    else
      match Text.naturalIn? 10 whole with
      | some n => .ok (.int (if negative then -(n : Int) else n), rest)
      | none => .error .malformed
  else
    match Text.readDecimal? negative (whole ++ fraction ++ exponent) with
    | some x => .ok (.float x, rest)
    | none => .error .malformed

/-- A word or number. -/
def readAtom (cs : List Char) : Rest Value :=
  match afterWord? "null" cs with
  | some rest => .ok (.null, rest)
  | none =>
  match afterWord? "true" cs with
  | some rest => .ok (.bool true, rest)
  | none =>
  match afterWord? "false" cs with
  | some rest => .ok (.bool false, rest)
  | none =>
  match afterWord? "NaN" cs with
  | some rest => .ok (.float .nan, rest)
  | none =>
  match afterWord? "Infinity" cs with
  | some rest => .ok (.float (.infinity false), rest)
  | none =>
  match afterWord? "-Infinity" cs with
  | some rest => .ok (.float (.infinity true), rest)
  | none => readNumber cs

mutual

/-- A value that starts at the first character. -/
def readValue : Nat → List Char → Rest Value
  | 0, _ => .error .malformed
  | fuel + 1, cs =>
    match cs with
    | '"' :: cs =>
      match readString cs with
      | some (s, rest) => .ok (.str (String.ofList s), rest)
      | none => .error .malformed
    | '[' :: cs =>
      match skipBlanks cs with
      | ']' :: rest => .ok (.seq [], rest)
      | cs => (readItems fuel cs).map fun p => (.seq p.1, p.2)
    | '{' :: cs =>
      match skipBlanks cs with
      | '}' :: rest => .ok (.map [], rest)
      | cs => (readEntries fuel cs).map fun p => (.map (Entries.ofPairs p.1), p.2)
    | cs => readAtom cs

/-- The elements of a list up to its closing bracket. -/
def readItems : Nat → List Char → Rest (List Value)
  | 0, _ => .error .malformed
  | fuel + 1, cs =>
    match readValue fuel cs with
    | .error e => .error e
    | .ok (v, cs) =>
      match skipBlanks cs with
      | ']' :: rest => .ok ([v], rest)
      | ',' :: cs => (readItems fuel (skipBlanks cs)).map fun p => (v :: p.1, p.2)
      | _ => .error .malformed

/-- The entries of a mapping up to its closing brace. -/
def readEntries : Nat → List Char → Rest (List (Value × Value))
  | 0, _ => .error .malformed
  | fuel + 1, cs =>
    match cs with
    | '"' :: cs =>
      match readString cs with
      | none => .error .malformed
      | some (key, cs) =>
        match skipBlanks cs with
        | ':' :: cs =>
          match readValue fuel (skipBlanks cs) with
          | .error e => .error e
          | .ok (v, cs) =>
            let entry := (Value.str (String.ofList key), v)
            match skipBlanks cs with
            | '}' :: rest => .ok ([entry], rest)
            | ',' :: cs => (readEntries fuel (skipBlanks cs)).map fun p => (entry :: p.1, p.2)
            | _ => .error .malformed
        | _ => .error .malformed
    | _ => .error .malformed

end

/-- The value of a text, around which only blanks may stand. -/
def readText (cs : List Char) : Except ReadError Value := do
  let (v, rest) ← readValue (cs.length + 1) (skipBlanks cs)
  if (skipBlanks rest).isEmpty then return v else throw .malformed

end ApiTree.Json
