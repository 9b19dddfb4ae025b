import ApiTree.Binary64.Basic

/-!
# Shortest decimal form

A number is written with the fewest decimal digits that read back as the number, and of the texts
with that many digits with the one nearest to it. `Binary64.render` then places the point: between
`1e-04` and `1e+16` the notation is positional and keeps one digit after the point, outside it has
an exponent of at least two digits.
-/

set_option autoImplicit false

namespace ApiTree.Binary64

/-- The values that read back as `significand * 2 ^ exponent`, in units of a quarter of the last
place: the number itself, the lower end, the upper end, and whether the ends belong to them. -/
structure Neighbourhood where
  center : Nat
  low : Nat
  high : Nat
  closed : Bool

/-- The neighbourhood of a finite number: half a place on both sides, and a quarter below a power of
two, where the numbers below lie twice as dense. -/
def neighbourhood (significand : Nat) (exponent : Int) : Neighbourhood where
  center := 4 * significand
  low := if significand = Nat.pow 2 52 && exponent > -1074 then 4 * significand - 1
    else 4 * significand - 2
  high := 4 * significand + 2
  closed := significand % 2 = 0

/-- The least `k` such that the positive number `num / den` is below `10 ^ k`, given the exponent of
its leading binary digit. -/
def decimalPoint (num den : Nat) (leading : Int) : Int :=
  let reaches (k : Int) : Bool := Nat.pow 10 k.toNat * den ≤ num * Nat.pow 10 (-k).toNat
  let k := (leading * 30103) / 100000
  if reaches (k + 1) then k + 2 else if reaches k then k + 1 else k

/-- Digits of a candidate with `count` digits, if one of the two decimals around the number with
that many digits reads back as it. `num / den` is a quarter place of the number, and `point` the
decimal point. -/
def candidate? (n : Neighbourhood) (num den : Nat) (point : Int) (count : Nat) : Option Nat :=
  let power := point - count
  let unitNum := Nat.pow 10 power.toNat * den
  let unitDen := Nat.pow 10 (-power).toNat * num
  let inside (digits : Nat) : Bool :=
    let x := digits * unitNum
    if n.closed then n.low * unitDen ≤ x && x ≤ n.high * unitDen
    else n.low * unitDen < x && x < n.high * unitDen
  let below := n.center * unitDen / unitNum
  let gapBelow := n.center * unitDen - below * unitNum
  let gapAbove := (below + 1) * unitNum - n.center * unitDen
  let aboveFirst := gapAbove < gapBelow || (gapAbove == gapBelow && below % 2 == 1)
  match inside below, inside (below + 1) with
  | true, true => some (if aboveFirst then below + 1 else below)
  | true, false => some below
  | false, true => some (below + 1)
  | false, false => none

/-- Digits without trailing zeros. -/
def stripZeros (digits : List Char) : List Char :=
  match (digits.reverse.dropWhile (· == '0')).reverse with
  | [] => ['0']
  | ds => ds

/-- The digits and the position of the decimal point before the first of them: the value of the
result is `0.d₁d₂… * 10 ^ point`. Seventeen digits always read back. -/
def shortestDigits (significand : Nat) (exponent : Int) : List Char × Int :=
  if significand = 0 then (['0'], 1)
  else
    let n := neighbourhood significand exponent
    let quarter := scale 1 1 (2 - exponent)
    let point := decimalPoint (4 * significand * quarter.1) quarter.2 (significand.log2 + exponent)
    let found := (List.range 17).findSome? fun i =>
      (candidate? n quarter.1 quarter.2 point (i + 1)).map fun digits => (digits, i + 1)
    match found with
    | some (digits, count) =>
      let ds := Nat.toDigits 10 digits
      (stripZeros ds, point + ds.length - count)
    | none => (['0'], 1)

/-- Positional notation of digits with the given point, with at least one digit on both sides. -/
def positional (digits : List Char) (point : Int) : List Char :=
  if point ≤ 0 then '0' :: '.' :: List.replicate (-point).toNat '0' ++ digits
  else
    let whole := point.toNat
    if digits.length ≤ whole then
      digits ++ List.replicate (whole - digits.length) '0' ++ ['.', '0']
    else digits.take whole ++ '.' :: digits.drop whole

/-- Notation with an exponent: one digit before the point, a sign, two or more exponent digits. -/
def scientific (digits : List Char) (point : Int) : List Char :=
  let mantissa :=
    match digits with
    | [] => []
    | [d] => [d]
    | d :: ds => d :: '.' :: ds
  let e := point - 1
  let ds := Nat.toDigits 10 e.natAbs
  mantissa ++ 'e' :: (if e < 0 then '-' else '+') ::
    (if ds.length < 2 then '0' :: ds else ds)

/-- The shortest text of a number. -/
def render : Binary64 → String
  | .nan => "nan"
  | .infinity negative => if negative then "-inf" else "inf"
  | .finite negative significand exponent =>
    let (digits, point) := shortestDigits significand exponent
    let body := if -4 < point && point ≤ 16 then positional digits point
      else scientific digits point
    String.ofList (if negative then '-' :: body else body)

end ApiTree.Binary64
