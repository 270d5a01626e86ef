import Arbor.Json.SyntaxError
import Arbor.Json.Value

/-!
# Numerals

A numeral is a number as it is spelled: sign, whole digits, fraction digits and exponent.
`Numeral.read` takes one off a text and `Numeral.value` says which number it stands for.

A whole numeral that fits is an integer. Any other is a double, worked out from a significand
of at most 64 bits: digits that no longer fit are left out, those before the point counting
towards the power of ten. The significand is rounded to a double and then multiplied or
divided by the double nearest to the power of ten, so the result is close to the number
spelled and not always the nearest double to it.
-/

namespace Arbor

/-- A number as spelled. A numeral without fraction or exponent has `[]` or `none` there. -/
structure Numeral where
  negative : Bool
  whole : List Char
  fraction : List Char
  /-- Whether the exponent is negative, and its digits. -/
  exponent : Option (Bool × List Char)
deriving DecidableEq

namespace Numeral

/-- One of the digits 0 to 9. -/
def isDigit (c : Char) : Bool :=
  '0' ≤ c && c ≤ '9'

/-- The number a digit stands for. -/
def digitValue (c : Char) : Nat :=
  c.toNat - '0'.toNat

/-- The number that digits stand for together. -/
def digitsValue (digits : List Char) : Nat :=
  digits.foldl (fun n c => n * 10 + digitValue c) 0

/-- A text that begins with digits, cut behind them. -/
def readDigits (text : List Char) : Except SyntaxError (List Char × List Char) :=
  match text.takeWhile isDigit, text.dropWhile isDigit with
  | [], [] => .error .endInValue
  | [], _ :: _ => .error .invalidNumber
  | digits, rest => .ok (digits, rest)

/-- The digits before the point; only zero itself begins with a zero. -/
def readWhole (text : List Char) : Except SyntaxError (List Char × List Char) := do
  let (digits, rest) ← readDigits text
  match digits with
  | '0' :: _ :: _ => .error .invalidNumber
  | _ => .ok (digits, rest)

/-- The digits after a point, none if there is no point. -/
def readFraction (text : List Char) : Except SyntaxError (List Char × List Char) :=
  match text with
  | '.' :: rest => readDigits rest
  | _ => .ok ([], text)

/-- The sign of an exponent: whether it is a minus. -/
def readSign (text : List Char) : Bool × List Char :=
  match text with
  | '+' :: rest => (false, rest)
  | '-' :: rest => (true, rest)
  | _ => (false, text)

/-- The exponent, if a mark for one follows. -/
def readExponent (text : List Char) :
    Except SyntaxError (Option (Bool × List Char) × List Char) :=
  match text with
  | c :: rest =>
    if c = 'e' || c = 'E' then do
      let (negative, rest) := readSign rest
      let (digits, rest) ← readDigits rest
      .ok (some (negative, digits), rest)
    else .ok (none, text)
  | [] => .ok (none, text)

/-- The numeral at the head of a text. -/
def read (text : List Char) : Except SyntaxError (Numeral × List Char) := do
  let (negative, text) := match text with
    | '-' :: rest => (true, rest)
    | _ => (false, text)
  let (whole, text) ← readWhole text
  let (fraction, text) ← readFraction text
  let (exponent, text) ← readExponent text
  .ok (⟨negative, whole, fraction, exponent⟩, text)

/-- The significand grown by as many digits as 64 bits allow, and the digits left over. -/
def absorb (significand : Nat) : List Char → Nat × List Char
  | [] => (significand, [])
  | c :: rest =>
    let grown := significand * 10 + digitValue c
    if grown < 0x10000000000000000 then absorb grown rest
    else (significand, c :: rest)

/-- The double nearest to a power of ten, zero if there is none. -/
def powerOfTen (power : Nat) : Binary64 :=
  (Binary64.ofRatio false (Nat.pow 10 power) 1).getD (.zero false)

/-- `x` divided by a power of ten, in steps that doubles can hold. -/
def scaleDown (x : Binary64) (power : Nat) : Option Binary64 :=
  if power ≤ 308 then x.div (powerOfTen power)
  else if x.rank = 0 then some x
  else do
    let y ← x.div (powerOfTen 308)
    scaleDown y (power - 308)
termination_by power

/-- `x` multiplied by a power of ten. -/
def scaleUp (x : Binary64) (power : Nat) : Option Binary64 :=
  if power ≤ 308 then x.mul (powerOfTen power)
  else if x.rank = 0 then some x
  else none

/-- The double for a significand and a power of ten. -/
def scale (significand : Nat) (power : Int) : Option Binary64 := do
  let x ← Binary64.ofRatio false significand 1
  if power < 0 then scaleDown x power.natAbs else scaleUp x power.natAbs

/-- The significand of a numeral and the power of ten its digits leave. -/
def significand (n : Numeral) : Nat × Int :=
  let (first, left) := absorb 0 n.whole
  let (both, out) := absorb first n.fraction
  (both, left.length - (n.fraction.length - out.length : Nat))

/-- The double a numeral stands for. An exponent that 31 bits do not hold decides alone. -/
def double (n : Numeral) : Option Binary64 := do
  let (significand, power) := n.significand
  let x ← match n.exponent with
    | none => scale significand power
    | some (negative, digits) =>
      let shift := digitsValue digits
      if shift < 0x80000000 then scale significand (if negative then power - shift else power + shift)
      else if significand ≠ 0 && !negative then none
      else some (.zero false)
  some (x.withSign n.negative)

/-- The integer a numeral stands for, if it is whole and 64 bits hold it. Zero behind a minus
sign is not an integer. -/
def int? (n : Numeral) : Option WideInt :=
  if n.fraction = [] && n.exponent = none then
    let magnitude := digitsValue n.whole
    if n.negative then
      if magnitude = 0 then none else WideInt.ofInt? (-magnitude)
    else WideInt.ofInt? magnitude
  else none

/-- The number a numeral stands for. -/
def value (n : Numeral) : Except SyntaxError Json :=
  match n.int? with
  | some i => .ok (.int i)
  | none =>
    match n.double with
    | some x => .ok (.float x)
    | none => .error .numberOutOfRange

end Numeral

end Arbor
