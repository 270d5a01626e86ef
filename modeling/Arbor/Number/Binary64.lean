/-!
# Finite doubles

A finite double is a sign and a place in the order of the non-negative doubles. The first
`2 ^ 52` places are the subnormal numbers; each further run of `2 ^ 52` places is one binade,
so the place is the number's bit pattern without its sign, and the place of infinity bounds all
others. Magnitudes are counted in units of `2 ^ -1074`, the least positive double, which makes
every one of them a natural number and all arithmetic exact. `ofRatio` rounds a quotient to the
nearest double, a half going to the even place.
-/

namespace Arbor

/-- A finite double. -/
structure Binary64 where
  negative : Bool
  rank : Nat
  rank_lt : rank < 0x7ff0000000000000
deriving DecidableEq

/-- `n / d` to the nearest whole number, a half to the even one. -/
def roundHalfEven (n d : Nat) : Nat :=
  let rest := 2 * (n % d)
  if rest < d || (rest == d && n / d % 2 == 0) then n / d else n / d + 1

namespace Binary64

/-- The number of doubles in a binade, `2 ^ 52`. -/
def binadeSize : Nat := 0x10000000000000

/-- A unit is one at this place behind the binary point. -/
def unitPlace : Nat := 1074

/-- The number of units in one, `2 ^ 1074`. -/
def unitsInOne : Nat := 1 <<< unitPlace

/-- Zero with a sign. -/
def zero (negative : Bool) : Binary64 :=
  ⟨negative, 0, by decide⟩

/-- The magnitude in units of `2 ^ -1074`. -/
def units (x : Binary64) : Nat :=
  let binade := x.rank / binadeSize
  let fraction := x.rank % binadeSize
  if binade = 0 then fraction else (binadeSize + fraction) <<< (binade - 1)

/-- The place of the double nearest to `num / den`. A carry out of the fraction moves the
place into the next binade by itself. -/
def rankOf (num den : Nat) : Nat :=
  let scaled := num * unitsInOne
  let shift := Nat.log2 (scaled / den) - 52
  shift * binadeSize + roundHalfEven scaled (den <<< shift)

/-- The double nearest to `num / den`, unless that is past the largest one. -/
def ofRatio (negative : Bool) (num den : Nat) : Option Binary64 :=
  if h : rankOf num den < 0x7ff0000000000000 then some ⟨negative, rankOf num den, h⟩ else none

/-- The product, rounded. -/
def mul (x y : Binary64) : Option Binary64 :=
  ofRatio (x.negative != y.negative) (x.units * y.units) (unitsInOne * unitsInOne)

/-- The quotient by a divisor other than zero, rounded. -/
def div (x y : Binary64) : Option Binary64 :=
  ofRatio (x.negative != y.negative) x.units y.units

/-- The magnitude under the given sign. -/
def withSign (negative : Bool) (x : Binary64) : Binary64 :=
  { x with negative }

/-- The double nearest to a whole number; zero has no sign. -/
def ofInt (n : Int) : Option Binary64 :=
  ofRatio (n < 0) n.natAbs 1

end Binary64

end Arbor
