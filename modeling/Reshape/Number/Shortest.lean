/-! # Shortest decimals

The shortest decimal of a floating-point number has the fewest digits among the decimals that are
rounded to that number; of several with so many digits it is the nearest, and of two that are
equally near the one with an even last digit. -/

namespace Reshape.Number

/-- The number `digits · 10 ^ exponent`. -/
structure Decimal where
  digits : Nat
  exponent : Int
  deriving Repr, DecidableEq

/-- A finite float as `mantissa · 2 ^ exponent`, whatever its sign. -/
structure Binary where
  mantissa : Nat
  exponent : Int
  deriving Repr, DecidableEq

/-- The parts of the magnitude of a finite float. -/
def Binary.ofFloat (x : Float) : Binary :=
  let bits := x.toBits.toNat
  let fraction : Nat := bits % Nat.pow 2 52
  let biased : Nat := bits / Nat.pow 2 52 % Nat.pow 2 11
  if biased = 0 then ⟨fraction, -1074⟩ else ⟨fraction + Nat.pow 2 52, (biased : Int) - 1075⟩

/-- A number between two bounds, all three over one denominator. -/
structure Interval where
  low : Nat
  value : Nat
  high : Nat
  denominator : Nat
  /-- Whether the bounds belong to the interval. -/
  closed : Bool
  deriving Repr

namespace Interval

/-- The reals that are rounded to a positive float. Below a power of two the neighbour is half as
far. -/
def ofBinary (binary : Binary) : Interval :=
  let scale := Nat.pow 2 (binary.exponent - 2).toNat
  let m := 4 * binary.mantissa
  let below := if binary.mantissa = Nat.pow 2 52 ∧ -1074 < binary.exponent then 1 else 2
  { low := (m - below) * scale
    value := m * scale
    high := (m + 2) * scale
    denominator := Nat.pow 2 (2 - binary.exponent).toNat
    closed := binary.mantissa % 2 == 0 }

/-- The number of decimal digits of a natural number. -/
def digitCount (n : Nat) : Nat := (Nat.toDigits 10 n).length

/-- The exponent of the leading digit of the value. -/
def leading (interval : Interval) : Int :=
  if interval.denominator ≤ interval.value then
    (digitCount (interval.value / interval.denominator) : Int) - 1
  else
    let inverse := (interval.denominator + interval.value - 1) / interval.value
    Int.neg (digitCount (inverse - 1))

/-- The interval in units of `10 ^ exponent`. -/
def inUnits (interval : Interval) (exponent : Int) : Interval :=
  let up := Nat.pow 10 (-exponent).toNat
  { interval with
    low := interval.low * up
    value := interval.value * up
    high := interval.high * up
    denominator := interval.denominator * Nat.pow 10 exponent.toNat }

/-- Whether a whole number lies in the interval. -/
def holds (interval : Interval) (n : Nat) : Bool :=
  let n := n * interval.denominator
  if interval.closed then interval.low ≤ n && n ≤ interval.high
  else interval.low < n && n < interval.high

/-- The whole number of the interval nearest to the value, if it is a neighbour of the value. -/
def nearest? (interval : Interval) : Option Nat :=
  let floor := interval.value / interval.denominator
  let down := interval.value - floor * interval.denominator
  let up := (floor + 1) * interval.denominator - interval.value
  match interval.holds floor, interval.holds (floor + 1) with
  | false, false => none
  | true, false => some floor
  | false, true => some (floor + 1)
  | true, true =>
    if down < up then some floor
    else if up < down then some (floor + 1)
    else if floor % 2 = 0 then some floor else some (floor + 1)

/-- The decimal with `count` digits that stands for the interval. -/
def decimal? (interval : Interval) (count : Nat) : Option Decimal :=
  let exponent := interval.leading + 1 - (count : Int)
  (interval.inUnits exponent).nearest?.map fun digits => ⟨digits, exponent⟩

end Interval

/-- A decimal without zeros at its end, in at most `fuel` steps. -/
def Decimal.trim : Nat → Decimal → Decimal
  | 0, decimal => decimal
  | fuel + 1, decimal =>
    if decimal.digits ≠ 0 ∧ decimal.digits % 10 = 0 then
      trim fuel ⟨decimal.digits / 10, decimal.exponent + 1⟩
    else decimal

/-- The shortest decimal of the magnitude of a finite float. Seventeen digits always suffice. -/
def shortest (x : Float) : Decimal :=
  let binary := Binary.ofFloat x
  if binary.mantissa = 0 then ⟨0, 0⟩
  else
    let interval := Interval.ofBinary binary
    let found := (List.range 17).findSome? fun n => interval.decimal? (n + 1)
    (found.getD ⟨0, 0⟩).trim 20

end Reshape.Number
