import Reshape.Text.Fragment
import Reshape.Yaml.Basic

/-! # What plain scalars stand for

A scalar without quotes may be read as null, a truth value, an integer or a float. -/

namespace Reshape.Yaml.Scalar

/-- Whether a text is a word for null. -/
def isNull (text : String) : Bool :=
  ["null", "Null", "NULL", "~"].contains text

/-- The truth value that a text stands for. -/
def bool? (text : String) : Option Bool :=
  if ["true", "True", "TRUE"].contains text then some true
  else if ["false", "False", "FALSE"].contains text then some false
  else none

/-- The value of a digit in a base. -/
def digit? (base : Nat) (c : Char) : Option Nat :=
  let value :=
    if '0' ≤ c ∧ c ≤ '9' then c.toNat - '0'.toNat
    else if 'a' ≤ c ∧ c ≤ 'z' then c.toNat - 'a'.toNat + 10
    else if 'A' ≤ c ∧ c ≤ 'Z' then c.toNat - 'A'.toNat + 10
    else base
  if value < base then some value else none

/-- The value of one or more digits in a base. -/
def digits? (base : Nat) (digits : List Char) : Option Nat :=
  if digits.isEmpty then none
  else digits.foldlM (fun value c => (digit? base c).map (value * base + ·)) 0

/-- A text without its sign. -/
def dropSign : List Char → List Char
  | '+' :: rest | '-' :: rest => rest
  | chars => chars

/-- Whether a text is a zero followed by digits, such as `007`: that is no number. -/
def isPadded (chars : List Char) : Bool :=
  match dropSign chars with
  | '0' :: c :: rest => (c :: rest).all fun d => '0' ≤ d ∧ d ≤ '9'
  | _ => false

/-- The value of digits, in base 16, 8 or 2 behind the mark of the base and else in base 10. -/
def unsigned? (chars : List Char) : Option Nat :=
  match chars with
  | '0' :: 'x' :: digits => digits? 16 digits
  | '0' :: 'o' :: digits => digits? 8 digits
  | '0' :: 'b' :: digits => digits? 2 digits
  | digits => if isPadded digits then none else digits? 10 digits

/-- The natural number that a text stands for; a plus may stand before it. -/
def nat? (text : String) : Option Nat :=
  match text.toList with
  | '+' :: chars => unsigned? chars
  | chars => unsigned? chars

/-- The integer that a text stands for. -/
def int? (text : String) : Option Int :=
  match text.toList with
  | '-' :: chars => (unsigned? chars).map fun n => Int.neg n
  | _ => (nat? text).map Int.ofNat

/-- The exponent of a decimal number: `e`, a sign or none, and digits, up to the end. -/
def exponent? : List Char → Option Int
  | [] => some 0
  | mark :: rest =>
    if mark = 'e' ∨ mark = 'E' then
      match rest with
      | '-' :: digits => (digits? 10 digits).map fun n => Int.neg n
      | '+' :: digits => (digits? 10 digits).map Int.ofNat
      | digits => (digits? 10 digits).map Int.ofNat
    else none

/-- The float nearest to `significand * 10 ^ exponent`, if it is finite. -/
def scaled? (significand : Nat) (exponent : Int) : Option Float :=
  if significand = 0 then some 0
  else if exponent > 400 then none
  else
    let x :=
      if exponent ≥ 0 then Float.ofScientific significand false exponent.toNat
      else if exponent.natAbs > (Nat.toDigits 10 significand).length + 400 then 0
      else Float.ofScientific significand true exponent.natAbs
    if Number.isFinite x then some x else none

/-- The float that a decimal number without sign stands for. Digits may be missing before or behind
the point, but not on both sides. -/
def decimal? (chars : List Char) : Option Float := do
  let isDigit (c : Char) : Bool := '0' ≤ c ∧ c ≤ '9'
  let whole := chars.takeWhile isDigit
  let (fraction, rest) := match chars.dropWhile isDigit with
    | '.' :: rest => (rest.takeWhile isDigit, rest.dropWhile isDigit)
    | rest => ([], rest)
  let value ← digits? 10 (whole ++ fraction)
  let exponent ← exponent? rest
  scaled? value (exponent - fraction.length)

/-- The float that a text stands for. -/
def float? (text : String) : Option Float :=
  let infinity (chars : List Char) : Bool :=
    [".inf", ".Inf", ".INF"].contains (String.ofList chars)
  if [".nan", ".NaN", ".NAN"].contains text then some (0 / 0)
  else match text.toList with
    | '+' :: chars => if infinity chars then some (1 / 0) else decimal? chars
    | '-' :: chars =>
      if infinity chars then some (-1 / 0) else (decimal? chars).map fun x => -x
    | chars => if infinity chars then some (1 / 0) else decimal? chars

/-- Whether a text, written without quotes, could be read as something else than a text. -/
def isAmbiguous (text : String) : Bool :=
  text.isEmpty || isNull text || (bool? text).isSome || (int? text).isSome
    || isPadded text.toList || (float? text).isSome

end Reshape.Yaml.Scalar
