import Reshape.Json.Read

/-! # The numbers that JSON numerals stand for

A numeral without point or exponent is an integer as long as it fits into 64 bits. Any other numeral
is a float: its first digits, as many as fit into 64 bits, scaled by a power of ten. A numeral too
large for a float stands for nothing. -/

namespace Reshape.Json

/-- The greatest integer that is read digit by digit. -/
def wordLimit : Nat := Nat.pow 2 64 - 1

/-- The value of decimal digits. -/
def digitsValue (digits : List Char) : Nat :=
  digits.foldl (fun value c => value * 10 + (c.toNat - '0'.toNat)) 0

/-- A significand extended by digits while it stays within 64 bits, and the number of digits that it
took. -/
def significand (start : Nat) : List Char → Nat × Nat
  | [] => (start, 0)
  | c :: rest =>
    let next := start * 10 + (c.toNat - '0'.toNat)
    if next ≤ wordLimit then
      let (value, taken) := significand next rest
      (value, taken + 1)
    else (start, 0)

/-- A power of ten, as near as a float comes. -/
def powerOfTen (n : Nat) : Float :=
  Float.ofScientific 1 false n

/-- A float divided by `10 ^ n`, in steps of at most `10 ^ 308`. -/
def scaleDown : Nat → Float → Nat → Float
  | 0, x, _ => x
  | fuel + 1, x, n =>
    if n ≤ 308 then x / powerOfTen n
    else if x == 0 then x
    else scaleDown fuel (x / powerOfTen 308) (n - 308)

/-- A significand scaled by a power of ten; nothing if the result is too large for a float. -/
def scale? (significand : Nat) (exponent : Int) : Option Float :=
  let x := Float.ofNat significand
  if exponent < 0 then some (scaleDown 4 x exponent.natAbs)
  else if exponent ≤ 308 then
    let scaled := x * powerOfTen exponent.toNat
    if scaled.isInf then none else some scaled
  else if significand = 0 then some x
  else none

/-- The parts of a numeral: sign, digits before and behind the point, exponent. -/
structure NumeralParts where
  negative : Bool
  whole : List Char
  fraction : List Char
  exponent : Option Int

/-- Take a numeral apart. -/
def numeralParts (numeral : String) : NumeralParts :=
  let (sign, rest) := readSign numeral.toList
  let (whole, rest) := spanDigits rest
  let (fraction, rest) := readFraction rest
  let exponent := match rest with
    | _ :: '-' :: digits => some (-(digitsValue digits : Int))
    | _ :: '+' :: digits => some (digitsValue digits : Int)
    | _ :: digits => some (digitsValue digits : Int)
    | [] => none
  { negative := !sign.isEmpty, whole, fraction := fraction.drop 1, exponent }

namespace NumeralParts

/-- Whether a numeral is written as an integer. -/
def isWhole (parts : NumeralParts) : Bool :=
  parts.fraction.isEmpty && parts.exponent.isNone

/-- The natural number that a numeral stands for, if it is one within 64 bits. A minus makes zero a
float. -/
def nat? (parts : NumeralParts) : Option Nat :=
  let value := digitsValue parts.whole
  if parts.isWhole ∧ parts.negative = false ∧ value ≤ wordLimit then some value else none

/-- The float that a numeral stands for. -/
def float? (parts : NumeralParts) : Option Float :=
  let (start, taken) := significand 0 parts.whole
  let long := parts.whole.length - taken
  let (value, places) := significand start parts.fraction
  let exponent := (long : Int) - places + parts.exponent.getD 0
  (scale? value exponent).map fun x => if parts.negative then -x else x

end NumeralParts

/-- The natural number that a JSON number stands for. -/
def nat? : Json → Option Nat
  | number numeral => (numeralParts numeral).nat?
  | _ => none

/-- The float that a JSON number stands for. -/
def float? : Json → Option Float
  | number numeral => (numeralParts numeral).float?
  | _ => none

end Reshape.Json
