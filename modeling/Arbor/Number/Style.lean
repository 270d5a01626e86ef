import Arbor.Number.Decimal
import Arbor.Text.Quoted

/-!
# Written doubles

A double is written with its shortest digits, either in place around a decimal point or as a
leading digit with a power of ten. `NumberStyle` holds the decisions in which the written
forms differ.
-/

namespace Arbor

/-- The decisions of one written form of doubles. -/
structure NumberStyle where
  /-- Which digits a double between two equally short decimals gets. -/
  tie : Tie
  /-- The powers of ten of a leading digit for which all digits stand in place. -/
  inPlace : Int → Bool
  /-- A whole number ends in `.0`. -/
  pointZero : Bool
  /-- A power of ten that is not negative has a plus sign. -/
  plus : Bool

namespace NumberStyle

/-- `n` zeros. -/
def zeros (n : Nat) : List Char :=
  List.replicate n '0'

/-- `digits` without the zeros at their end. -/
def trimZeros (digits : List Char) : List Char :=
  (digits.reverse.dropWhile (· == '0')).reverse

/-- The digits around a point, where `power` is the power of ten of the first digit. -/
def placed (style : NumberStyle) (digits : List Char) (power : Int) : List Char :=
  if power < 0 then
    '0' :: '.' :: (zeros (-power - 1).toNat ++ digits)
  else
    let whole := power.toNat + 1
    let front := digits.take whole ++ zeros (whole - digits.length)
    match digits.drop whole with
    | [] => if style.pointZero then front ++ ['.', '0'] else front
    | fraction => front ++ '.' :: fraction

/-- The first digit, the others after a point, and the power of ten. -/
def scientific (style : NumberStyle) (digits : List Char) (power : Int) : List Char :=
  let mantissa := match digits with
    | [] => ['0']
    | [d] => [d]
    | d :: fraction => d :: '.' :: fraction
  let sign := if power < 0 then ['-'] else if style.plus then ['+'] else []
  mantissa ++ 'e' :: (sign ++ Nat.toDigits 10 power.natAbs)

/-- The magnitude of `x` as written. -/
def magnitude (style : NumberStyle) (x : Binary64) : List Char :=
  if x.rank = 0 then
    if style.pointZero then ['0', '.', '0'] else ['0']
  else
    let decimal := Decimal.shortest style.tie x
    let digits := Nat.toDigits 10 decimal.digits
    let power := decimal.exponent + digits.length - 1
    if style.inPlace power then style.placed (trimZeros digits) power
    else style.scientific (trimZeros digits) power

/-- `x` as written; zero keeps its sign. -/
def write (style : NumberStyle) (x : Binary64) : String :=
  String.ofList (if x.negative then '-' :: style.magnitude x else style.magnitude x)

end NumberStyle

end Arbor
