import Arbor.Number.Binary64

/-!
# Shortest decimals

`Decimal.shortest` gives the decimal with the fewest digits that rounds to a given double.
For one digit, two digits and so on it tests the two neighbours of the double on that
decimal grid; the first grid with a hit decides, and of two hits the nearer is taken. The
rule for a double exactly between two hits is a parameter. The exact expansion of the double
stands behind the search, so the result reads back to the double in every case.
-/

namespace Arbor

/-- The number `digits * 10 ^ exponent`. -/
structure Decimal where
  digits : Nat
  exponent : Int
deriving DecidableEq

/-- Which of two equally near decimals is taken. -/
inductive Tie where
  | up
  | even
deriving DecidableEq

namespace Decimal

/-- The double nearest to the decimal, under a sign. -/
def nearest? (negative : Bool) (d : Decimal) : Option Binary64 :=
  Binary64.ofRatio negative (d.digits * Nat.pow 10 d.exponent.toNat)
    (Nat.pow 10 (-d.exponent).toNat)

/-- All digits of a double. -/
def exact (x : Binary64) : Decimal :=
  ⟨x.units * Nat.pow 5 Binary64.unitPlace, -Binary64.unitPlace⟩

/-- The exponent `e` with `10 ^ (e - 1) ≤ |x| < 10 ^ e`, for `x` other than zero. -/
def magnitude (x : Binary64) : Int :=
  (Nat.toDigits 10 (x.units * Nat.pow 10 400 / Binary64.unitsInOne)).length - 400

/-- The one of two neighbours of `x` that rounds to it, and of two that do the nearer. -/
def hit? (x : Binary64) (low high nearer : Decimal) : Option Decimal :=
  if low.nearest? x.negative = some x then
    if high.nearest? x.negative = some x then some nearer else some low
  else if high.nearest? x.negative = some x then some high
  else none

/-- The decimal of `count` significant digits that rounds to `x`, if there is one. -/
def withDigits? (tie : Tie) (x : Binary64) (count : Nat) : Option Decimal :=
  let exponent := magnitude x - count
  let num := x.units * Nat.pow 10 (-exponent).toNat
  let den := Binary64.unitsInOne * Nat.pow 10 exponent.toNat
  let low : Decimal := ⟨num / den, exponent⟩
  let high : Decimal := ⟨num / den + 1, exponent⟩
  let rest := 2 * (num % den)
  let nearer :=
    if rest < den then low
    else if den < rest then high
    else match tie with
      | .up => high
      | .even => if low.digits % 2 = 0 then low else high
  hit? x low high nearer

/-- The decimal with the fewest digits that rounds to `x`. -/
def shortest (tie : Tie) (x : Binary64) : Decimal :=
  ((List.range 17).findSome? fun n => withDigits? tie x (n + 1)).getD (exact x)

end Decimal

end Arbor
