import Reshape.Number.Shortest

/-! # The order and the text of floating-point numbers

Every float has a rank in one linear order: by value, with `-0.0` below `0.0` and NaN outside the
infinities. Sorting by rank needs no special case for NaN.

A float is written with its shortest digits: positionally, always with a point, while the point
stands within or near the digits, and with an exponent otherwise. -/

namespace Reshape.Number

/-- The rank of a float: its magnitude bits, negated and shifted by one below zero. -/
def rank (x : Float) : Int :=
  let bits := x.toBits.toNat
  if bits < Nat.pow 2 63 then bits else -((bits - Nat.pow 2 63 : Nat) : Int) - 1

/-- Where positional notation ends: the point may stand up to `right` places behind the first digit,
or up to `left` zeros in front of it. -/
structure Layout where
  right : Int := 16
  left : Int := 4

/-- The digits of a decimal, with the point at its place. -/
def Decimal.text (layout : Layout) (decimal : Decimal) : String :=
  let digits := toString decimal.digits
  let point := (digits.length : Int) + decimal.exponent
  let zeros := fun n : Int => String.ofList (List.replicate n.toNat '0')
  if 0 ≤ decimal.exponent ∧ point ≤ layout.right then
    digits ++ zeros decimal.exponent ++ ".0"
  else if 0 < point ∧ point ≤ layout.right then
    String.ofList (digits.toList.take point.toNat) ++ "." ++
      String.ofList (digits.toList.drop point.toNat)
  else if -layout.left ≤ point ∧ point ≤ 0 then
    "0." ++ zeros (-point) ++ digits
  else
    let fraction := String.ofList (digits.toList.drop 1)
    String.ofList (digits.toList.take 1) ++ (if fraction.isEmpty then "" else "." ++ fraction)
      ++ "e" ++ toString (point - 1)

/-- The text of a finite float: the sign, then the shortest digits. -/
def text (x : Float) : String :=
  (if x.toBits.toNat < Nat.pow 2 63 then "" else "-") ++ (shortest x).text {}

/-- Whether a float is neither infinite nor NaN. -/
def isFinite (x : Float) : Bool :=
  x.toBits.toNat / Nat.pow 2 52 % Nat.pow 2 11 != 2047

end Reshape.Number
