import ApiTree.Text.Blank

/-!
# Tags

The type that a node claims, and the type that plain text has when it claims none. The shapes of
plain text are those of YAML 1.1: besides decimal numbers there are octal, hexadecimal, binary and
sexagesimal ones, and `yes`, `no`, `on` and `off` are truth values.
-/

set_option autoImplicit false

namespace ApiTree.Yaml

/-- The type of a node. -/
inductive Tag where
  | null
  | bool
  | int
  | float
  | binary
  | timestamp
  | omap
  | pairs
  | set
  | str
  | seq
  | map
  | merge
  | value
  | unknown
  deriving DecidableEq, Repr, Inhabited

/-- The name space of the types that the format defines. -/
def Tag.space : String := "tag:yaml.org,2002:"

/-- The type with the given full name. -/
def Tag.ofName (name : String) : Tag :=
  ([("null", Tag.null), ("bool", .bool), ("int", .int), ("float", .float), ("binary", .binary),
    ("timestamp", .timestamp), ("omap", .omap), ("pairs", .pairs), ("set", .set), ("str", .str),
    ("seq", .seq), ("map", .map), ("merge", .merge), ("value", .value)].find? fun e =>
      Tag.space ++ e.1 == name).elim .unknown Prod.snd

namespace Shape

/-- Text after an optional sign. -/
def unsigned : List Char → List Char
  | '+' :: cs => cs
  | '-' :: cs => cs
  | cs => cs

/-- A decimal digit or an underscore. -/
def isDigitOrMark (c : Char) : Bool := c.isDigit || c = '_'

/-- The text is one or more characters that satisfy `p`. -/
def isRun (p : Char → Bool) (cs : List Char) : Bool := !cs.isEmpty && cs.all p

/-- The text starts with a digit and goes on with digits and underscores. -/
def isWhole : List Char → Bool
  | c :: cs => c.isDigit && cs.all isDigitOrMark
  | [] => false

/-- The text is empty or an exponent: a letter, a sign and digits. -/
def isExponent : List Char → Bool
  | [] => true
  | e :: s :: ds => (e = 'e' || e = 'E') && (s = '+' || s = '-') && isRun Char.isDigit ds
  | _ => false

/-- The text is one or two digits, the first of two below six. -/
def isSixty : List Char → Bool
  | [a] => a.isDigit
  | [a, b] => '0' ≤ a && a ≤ '5' && b.isDigit
  | _ => false

/-- The pieces of the text between colons. -/
def fields (cs : List Char) : List (List Char) :=
  Text.splitWhere (· == ':') cs

/-- An integer: binary, octal, decimal, hexadecimal or sexagesimal. -/
def isInt (cs : List Char) : Bool :=
  match unsigned cs with
  | '0' :: 'b' :: ds => isRun (fun c => c = '0' || c = '1' || c = '_') ds
  | '0' :: 'x' :: ds =>
    isRun (fun c => isDigitOrMark c || ('a' ≤ c && c ≤ 'f') || ('A' ≤ c && c ≤ 'F')) ds
  | '0' :: ds => ds.all fun c => ('0' ≤ c && c ≤ '7') || c = '_'
  | ds =>
    match fields ds with
    | [whole] => isWhole whole
    | whole :: rest => isWhole whole && rest.all isSixty
    | [] => false

/-- The text is digits, a point, and digits, possibly with an exponent. -/
def isPointed (cs : List Char) : Bool :=
  let whole := cs.takeWhile (· != '.')
  match cs.dropWhile (· != '.') with
  | _ :: rest => isWhole whole && isExponent (rest.dropWhile isDigitOrMark)
  | [] => false

/-- A number with a point, or one of the names of the numbers that are not finite. -/
def isFloat (cs : List Char) : Bool :=
  let body := unsigned cs
  isPointed body ||
    (match cs with
     | '.' :: c :: rest => c.isDigit && isExponent (rest.dropWhile isDigitOrMark)
     | _ => false) ||
    (match fields body with
     | whole :: rest =>
       isWhole whole && !rest.isEmpty && rest.dropLast.all isSixty &&
         (rest.getLast?.any fun last =>
           let unit := last.takeWhile (· != '.')
           match last.dropWhile (· != '.') with
           | _ :: fraction => isSixty unit && fraction.all isDigitOrMark
           | [] => false)
     | [] => false) ||
    [".inf", ".Inf", ".INF"].any (·.toList == body) || [".nan", ".NaN", ".NAN"].any (·.toList == cs)

/-- A truth value. -/
def isBool (cs : List Char) : Bool :=
  ["yes", "Yes", "YES", "no", "No", "NO", "true", "True", "TRUE", "false", "False", "FALSE",
   "on", "On", "ON", "off", "Off", "OFF"].any (·.toList == cs)

/-- Null. -/
def isNull (cs : List Char) : Bool :=
  ["", "~", "null", "Null", "NULL"].any (·.toList == cs)

end Shape

/-- The parts of a timestamp as written. The time of day is absent for a mere date. -/
structure TimestampText where
  year : List Char
  month : List Char
  day : List Char
  time : Option (List Char × List Char × List Char × List Char × Option (Bool × List Char × List Char))
  deriving Repr

namespace TimestampText

/-- One or two digits at the start of the text, and what follows. -/
def oneOrTwo? : List Char → Option (List Char × List Char)
  | a :: b :: cs =>
    if a.isDigit && b.isDigit then some ([a, b], cs)
    else if a.isDigit then some ([a], b :: cs) else none
  | [a] => if a.isDigit then some ([a], []) else none
  | [] => none

/-- Exactly two digits at the start of the text, and what follows. -/
def two? : List Char → Option (List Char × List Char)
  | a :: b :: cs => if a.isDigit && b.isDigit then some ([a, b], cs) else none
  | _ => none

/-- The distance from universal time at the end of a timestamp: none, `Z`, or a sign with hours and
minutes. -/
def zone? (cs : List Char) : Option (Option (Bool × List Char × List Char)) :=
  match cs with
  | [] => some none
  | _ =>
    match cs.dropWhile fun c => c = ' ' || c = '\t' with
    | ['Z'] => some (some (false, ['0'], []))
    | sign :: rest =>
      if sign = '+' || sign = '-' then
        match oneOrTwo? rest with
        | some (hour, []) => some (some (sign = '-', hour, []))
        | some (hour, ':' :: rest) =>
          match two? rest with
          | some (minute, []) => some (some (sign = '-', hour, minute))
          | _ => none
        | _ => none
      else none
    | [] => none

/-- The time of day after the separator of a timestamp. -/
def time? (cs : List Char) :
    Option (List Char × List Char × List Char × List Char × Option (Bool × List Char × List Char)) :=
  match oneOrTwo? cs with
  | some (hour, ':' :: cs) =>
    match two? cs with
    | some (minute, ':' :: cs) =>
      match two? cs with
      | some (second, cs) =>
        let (fraction, cs) :=
          match cs with
          | '.' :: cs => (cs.takeWhile Char.isDigit, cs.dropWhile Char.isDigit)
          | _ => ([], cs)
        (zone? cs).map fun z => (hour, minute, second, fraction, z)
      | none => none
    | _ => none
  | _ => none

/-- The parts of a text of the form of a timestamp. -/
def ofText? (cs : List Char) : Option TimestampText :=
  let year := cs.take 4
  if year.length = 4 && year.all Char.isDigit then
    match cs.drop 4 with
    | '-' :: cs =>
      match oneOrTwo? cs with
      | some (month, '-' :: cs) =>
        match oneOrTwo? cs with
        | some (day, []) => some ⟨year, month, day, none⟩
        | some (day, c :: cs) =>
          if c = 'T' || c = 't' then (time? cs).map fun t => ⟨year, month, day, some t⟩
          else if c = ' ' || c = '\t' then
            (time? (cs.dropWhile fun c => c = ' ' || c = '\t')).map fun t =>
              ⟨year, month, day, some t⟩
          else none
        | none => none
      | _ => none
    | _ => none
  else none

end TimestampText

namespace Shape

/-- A timestamp; a mere date has two digits for month and day. -/
def isTimestamp (cs : List Char) : Bool :=
  match TimestampText.ofText? cs with
  | some t => t.time.isSome || (t.month.length == 2 && t.day.length == 2)
  | none => false

end Shape

/-- The type of plain text. A newline at its end does not count. -/
def Tag.ofPlain (text : List Char) : Tag :=
  let cs := if text.getLast? = some '\n' then text.dropLast else text
  if Shape.isBool cs then .bool
  else if Shape.isFloat cs then .float
  else if Shape.isInt cs then .int
  else if cs = ['<', '<'] then .merge
  else if Shape.isNull cs && text ≠ ['\n'] then .null
  else if Shape.isTimestamp cs then .timestamp
  else if cs = ['='] then .value
  else .str

end ApiTree.Yaml
