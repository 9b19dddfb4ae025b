import ApiTree.Text.Numeral
import ApiTree.Value.Basic
import ApiTree.Yaml.Error
import ApiTree.Yaml.Tag

/-!
# What scalars denote

The value of a scalar of each type. A scalar may claim a type that its text does not fit; each
function says which failure that is.
-/

set_option autoImplicit false

namespace ApiTree.Yaml.Meaning

/-- A value that must be there. -/
def demand {α : Type} (f : Failure) : Option α → Except Failure α
  | some a => .ok a
  | none => .error f

/-- A truth value in any case. -/
def boolOf (text : String) : Except Failure Bool :=
  let word := Text.lower text
  if word = "yes" || word = "true" || word = "on" then .ok true
  else if word = "no" || word = "false" || word = "off" then .ok false
  else .error (.noKey word)

/-- The sign of a number without its underscores, and the rest; nothing has no sign. -/
def signed (text : List Char) : Except Failure (Bool × List Char) :=
  let cs := text.filter (· != '_')
  if cs.isEmpty then .error .outOfRange else .ok (Text.splitSign cs)

/-- The sum of the values, each weighted by sixty times the weight of the next. -/
def sexagesimal (parts : List Int) : Int :=
  parts.foldl (fun n part => 60 * n + part) 0

/-- An integer. -/
def intOf (text : List Char) : Except Failure Int := do
  let (negative, cs) ← signed text
  let n ←
    match cs with
    | [] => .error .outOfRange
    | ['0'] => pure 0
    | '0' :: 'b' :: ds => demand .badValue (Text.readInt? 2 ds)
    | '0' :: 'x' :: ds => demand .badValue (Text.readInt? 16 ds)
    | '0' :: _ => demand .badValue (Text.readInt? 8 cs)
    | _ =>
      if cs.contains ':' then
        sexagesimal <$>
          (Text.splitWhere (· == ':') cs).mapM fun part => demand .badValue (Text.readInt? 10 part)
      else demand .badValue (Text.readInt? 10 cs)
  return if negative then -n else n

/-- The sum of the parts, the last one first, each weighted by the given power of sixty. Every step
is rounded, and the weight must not exceed the greatest number. -/
def sexagesimalSum : List Binary64 → Int → Binary64 → Except Failure Binary64
  | [], _, sum => .ok sum
  | part :: parts, weight, sum => do
    let w ← demand .tooLarge (Binary64.ofInt? weight)
    sexagesimalSum parts (weight * 60) (sum.add (part.mul w))

/-- A number with a point. -/
def floatOf (text : List Char) : Except Failure Binary64 := do
  let (negative, cs) ← signed (text.map Char.toLower)
  let x ←
    if cs = ".inf".toList then pure (.infinity false)
    else if cs = ".nan".toList then pure .nan
    else if cs.contains ':' then do
      let parts ←
        (Text.splitWhere (· == ':') cs).mapM fun part => demand .badValue (Text.readFloat? part)
      sexagesimalSum parts.reverse 1 (.zero false)
    else demand .badValue (Text.readFloat? cs)
  return if negative then x.neg else x

/-- The number that ASCII digits write. -/
def digitsValue (ds : List Char) : Nat :=
  ds.foldl (fun n d => 10 * n + (d.toNat - 48)) 0

/-- The fraction of a second in microseconds; further digits are cut. -/
def microseconds (fraction : List Char) : Nat :=
  digitsValue ((fraction ++ List.replicate 6 '0').take 6)

/-- A date or timestamp. The text must have the form of one and name a day and time that exist. -/
def timestampOf (text : List Char) : Except Failure Value := do
  let cs := if text.getLast? = some '\n' then text.dropLast else text
  let t ← demand .noMember (TimestampText.ofText? cs)
  let day? := Date.ofParts? (digitsValue t.year) (digitsValue t.month) (digitsValue t.day)
  match t.time with
  | none => Value.date <$> demand .badValue day?
  | some (hour, minute, second, fraction, zone) =>
    let offset := zone.map fun (negative, h, m) =>
      let minutes : Int := digitsValue h * 60 + digitsValue m
      if negative then -minutes else minutes
    let day ← demand .badValue day?
    Value.timestamp <$> demand .badValue
      (Timestamp.ofParts? day (digitsValue hour) (digitsValue minute) (digitsValue second)
        (microseconds fraction) offset)

/-- The six bits of a character of base 64. -/
def sixBits? (c : Char) : Option Nat :=
  if 'A' ≤ c && c ≤ 'Z' then some (c.toNat - 65)
  else if 'a' ≤ c && c ≤ 'z' then some (c.toNat - 71)
  else if c.isDigit then some (c.toNat + 4)
  else if c = '+' then some 62
  else if c = '/' then some 63
  else none

/-- Bytes written in base 64, given the characters of the current group of four that have been read,
the bits left over from the last one, and the padding after it. Other characters do not count; the
text ends with the padding that completes a group, or with a complete group. -/
def base64Bytes : List Char → Nat → Nat → Nat → List UInt8 → Option (List UInt8)
  | [], read, _, _, bytes => if read = 0 then some bytes.reverse else none
  | c :: cs, read, left, pads, bytes =>
    if c = '=' then
      if read ≥ 2 then
        if read + pads + 1 ≥ 4 then some bytes.reverse
        else base64Bytes cs read left (pads + 1) bytes
      else base64Bytes cs read left pads bytes
    else
      match sixBits? c with
      | none => base64Bytes cs read left pads bytes
      | some bits =>
        match read with
        | 0 => base64Bytes cs 1 bits 0 bytes
        | 1 => base64Bytes cs 2 (bits % 16) 0 (UInt8.ofNat (left * 4 + bits / 16) :: bytes)
        | 2 => base64Bytes cs 3 (bits % 4) 0 (UInt8.ofNat (left * 16 + bits / 4) :: bytes)
        | _ => base64Bytes cs 0 0 0 (UInt8.ofNat (left * 64 + bits) :: bytes)

/-- Bytes in base 64, written in ASCII. -/
def bytesOf (text : List Char) : Except Error (List UInt8) :=
  if text.all fun c => c.toNat < 128 then
    match base64Bytes text 0 0 0 [] with
    | some bytes => .ok bytes
    | none => .error (.problem .tag)
  else .error (.problem .tag)

/-- A failure of a scalar as an error of reading. -/
def lift {α : Type} : Except Failure α → Except Error α
  | .ok a => .ok a
  | .error f => .error (.failure f)

/-- The value of a scalar of the given type. Collections, merges and unknown types have none. -/
def scalar (tag : Tag) (text : String) : Except Error Value :=
  match tag with
  | .null => .ok .null
  | .bool => lift (Value.bool <$> boolOf text)
  | .int => lift (Value.int <$> intOf text.toList)
  | .float => lift (Value.float <$> floatOf text.toList)
  | .timestamp => lift (timestampOf text.toList)
  | .binary => Value.bytes <$> bytesOf text.toList
  | .str => .ok (.str text)
  | .omap | .pairs | .set | .seq | .map | .merge | .value | .unknown => .error (.problem .tag)

end ApiTree.Yaml.Meaning
