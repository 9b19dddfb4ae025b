/-!
# Binary floating-point numbers

The numbers of the 64-bit binary format as data: a sign, a significand below `2 ^ 53` and a power of
two. Every operation computes the exact result as a ratio of natural numbers and rounds it once, to
the nearest number and to the even significand when two are equally near (`Binary64.ofRatio`).
-/

set_option autoImplicit false

namespace ApiTree

/-- A 64-bit binary number. A finite one has the value `significand * 2 ^ exponent`, where the
exponent is at least `-1074` and the significand has 53 binary digits unless the exponent is
`-1074`. -/
inductive Binary64 where
  | nan
  | infinity (negative : Bool)
  | finite (negative : Bool) (significand : Nat) (exponent : Int)
  deriving DecidableEq, Repr, Inhabited

namespace Binary64

/-- The zero of the given sign. -/
def zero (negative : Bool) : Binary64 := .finite negative 0 (-1074)

/-- The quotient rounded to the nearest natural number, a half to the even one. -/
def roundDiv (num den : Nat) : Nat :=
  let q := num / den
  let r := num % den
  if 2 * r > den || (2 * r == den && q % 2 == 1) then q + 1 else q

/-- Numerator and denominator of `num / den / 2 ^ exponent`. -/
def scale (num den : Nat) (exponent : Int) : Nat × Nat :=
  (num * Nat.pow 2 (-exponent).toNat, den * Nat.pow 2 exponent.toNat)

/-- The number nearest to `num / den`, for a positive `den`. The exponent is the least one at which
the significand fits, and too large a number is infinite. -/
def ofRatio (negative : Bool) (num den : Nat) : Binary64 :=
  if num = 0 then zero negative
  else
    let magnitude : Int := (num.log2 : Int) - den.log2
    let low := scale num den (magnitude - 53)
    let exponent :=
      max (-1074) (if low.1 / low.2 < Nat.pow 2 53 then magnitude - 53 else magnitude - 52)
    let scaled := scale num den exponent
    let significand := roundDiv scaled.1 scaled.2
    let carried := significand == Nat.pow 2 53
    let exponent := if carried then exponent + 1 else exponent
    if exponent > 971 then .infinity negative
    else .finite negative (if carried then Nat.pow 2 52 else significand) exponent

/-- The number nearest to `digits * 10 ^ power`. Powers far outside the range are decided by the
count of digits alone. -/
def ofDecimal (negative : Bool) (digits : Nat) (power : Int) : Binary64 :=
  if digits = 0 then zero negative
  else
    let width : Int := (Nat.toDigits 10 digits).length + power
    if width > 400 then .infinity negative
    else if width < -400 then zero negative
    else ofRatio negative (digits * Nat.pow 10 power.toNat) (Nat.pow 10 (-power).toNat)

/-- The number nearest to an integer; none when the integer is beyond the largest number. -/
def ofInt? (i : Int) : Option Binary64 :=
  match ofRatio (i < 0) i.natAbs 1 with
  | .infinity _ => none
  | x => some x

/-- The exact value as an integer over a positive natural number; none for the two infinities and
the undefined number. -/
def toRatio? : Binary64 → Option (Int × Nat)
  | .finite negative significand exponent =>
    let scaled := scale significand 1 (-exponent)
    some (if negative then -(scaled.1 : Int) else scaled.1, scaled.2)
  | _ => none

/-- The sign, that of a zero and of an infinity included. -/
def isNegative : Binary64 → Bool
  | .nan => false
  | .infinity negative => negative
  | .finite negative _ _ => negative

/-- The number of opposite sign. -/
def neg : Binary64 → Binary64
  | .nan => .nan
  | .infinity negative => .infinity !negative
  | .finite negative significand exponent => .finite (!negative) significand exponent

/-- The rounded sum. Only two negative zeros have a negative zero as sum. -/
def add (x y : Binary64) : Binary64 :=
  match x, y with
  | .nan, _ | _, .nan => .nan
  | .infinity a, .infinity b => if a == b then .infinity a else .nan
  | .infinity a, _ => .infinity a
  | _, .infinity b => .infinity b
  | .finite a _ _, .finite b _ _ =>
    match x.toRatio?, y.toRatio? with
    | some (n, d), some (m, e) =>
      let sum := n * e + m * d
      if sum = 0 then zero (a && b) else ofRatio (sum < 0) sum.natAbs (d * e)
    | _, _ => .nan

/-- The rounded product; an infinity times zero is undefined. -/
def mul (x y : Binary64) : Binary64 :=
  match x, y with
  | .nan, _ | _, .nan => .nan
  | .infinity a, .infinity b => .infinity (a != b)
  | .infinity a, .finite b m _ => if m = 0 then .nan else .infinity (a != b)
  | .finite a m _, .infinity b => if m = 0 then .nan else .infinity (a != b)
  | .finite a _ _, .finite b _ _ =>
    match x.toRatio?, y.toRatio? with
    | some (n, d), some (m, e) => ofRatio (a != b) (n * m).natAbs (d * e)
    | _, _ => .nan

/-- Equality of values: the undefined number equals nothing and the two zeros are equal. -/
def eqv (x y : Binary64) : Bool :=
  match x, y with
  | .nan, _ | _, .nan => false
  | .infinity a, .infinity b => a == b
  | .finite a m e, .finite b n f => (m == 0 && n == 0) || (a == b && m == n && e == f)
  | _, _ => false

/-- The number has the value of the integer. -/
def eqvInt (x : Binary64) (i : Int) : Bool :=
  match x.toRatio? with
  | some (n, d) => n == i * d
  | none => false

/-- The number is less than the integer. -/
def isBelowInt (x : Binary64) (i : Int) : Bool :=
  match x with
  | .infinity negative => negative
  | x =>
    match x.toRatio? with
    | some (n, d) => n < i * d
    | none => false

/-- The number has the value zero. -/
def isZero : Binary64 → Bool
  | .finite _ significand _ => significand == 0
  | _ => false

end Binary64
end ApiTree
