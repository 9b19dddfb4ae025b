import ApiTree.Binary64.Basic
import ApiTree.Text.Blank
import ApiTree.Text.Case

/-!
# Numerals

Integers and decimal numbers written as text. Blanks around a numeral do not count, and the decimal
digits of every script are read. A decimal integer has at most 4300 digits.
-/

set_option autoImplicit false

namespace ApiTree.Text

/-- The greatest number of digits of a decimal integer. -/
def maxDigits : Nat := 4300

/-- The text with the digits of other scripts written in ASCII and the blanks at its ends cut. -/
def plainDigits (cs : List Char) : List Char :=
  (trimWhile isBlank cs).map fun c =>
    if c.toNat < 128 then c
    else match digitValue? c with
      | some d => Char.ofNat (48 + d)
      | none => c

/-- The sign at the start of a numeral and what follows it. -/
def splitSign : List Char → Bool × List Char
  | '-' :: cs => (true, cs)
  | '+' :: cs => (false, cs)
  | cs => (false, cs)

/-- The value of a digit in bases up to sixteen. -/
def digitIn? (base : Nat) (c : Char) : Option Nat :=
  let value? :=
    if c.isDigit then some (c.toNat - 48)
    else if 'a' ≤ c && c ≤ 'f' then some (c.toNat - 87)
    else if 'A' ≤ c && c ≤ 'F' then some (c.toNat - 55)
    else none
  value?.filter (· < base)

/-- The number written by digits of the base, of which there is one at least. -/
def naturalIn? (base : Nat) (ds : List Char) : Option Nat :=
  if ds.isEmpty then none
  else ds.foldlM (fun n d => (digitIn? base d).map (base * n + ·)) 0

/-- Digits without the mark of their base: `0x`, `0o` or `0b` in either case. -/
def dropBaseMark (base : Nat) : List Char → List Char
  | '0' :: m :: ds =>
    if (base = 16 && m.toLower = 'x') || (base = 8 && m.toLower = 'o') ||
        (base = 2 && m.toLower = 'b') then ds
    else '0' :: m :: ds
  | ds => ds

/-- The integer that a numeral writes in the given base. -/
def readInt? (base : Nat) (cs : List Char) : Option Int :=
  let (negative, ds) := splitSign (plainDigits cs)
  let ds := dropBaseMark base ds
  if base = 10 && ds.length > maxDigits then none
  else (naturalIn? base ds).map fun n => if negative then -(n : Int) else n

/-- The number that digits with an optional point and exponent write. -/
def readDecimal? (negative : Bool) (cs : List Char) : Option Binary64 :=
  let whole := cs.takeWhile Char.isDigit
  let rest := cs.dropWhile Char.isDigit
  let (fraction, rest) :=
    match rest with
    | '.' :: rest => (rest.takeWhile Char.isDigit, rest.dropWhile Char.isDigit)
    | _ => ([], rest)
  let exponent? : Option Int :=
    match rest with
    | [] => some 0
    | e :: rest =>
      if e = 'e' || e = 'E' then
        let (down, ds) := splitSign rest
        (naturalIn? 10 ds).map fun n => if down then -(n : Int) else n
      else none
  match naturalIn? 10 (whole ++ fraction), exponent? with
  | some digits, some exponent =>
    some (Binary64.ofDecimal negative digits (exponent - fraction.length))
  | _, _ => none

/-- The number that a numeral writes; the names of the numbers that are not finite are read in any
case. -/
def readFloat? (cs : List Char) : Option Binary64 :=
  let (negative, body) := splitSign (plainDigits cs)
  let name := String.ofList (body.map Char.toLower)
  if name = "inf" || name = "infinity" then some (.infinity negative)
  else if name = "nan" then some .nan
  else readDecimal? negative body

end ApiTree.Text
