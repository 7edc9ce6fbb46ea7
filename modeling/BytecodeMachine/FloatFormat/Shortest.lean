/-
This file writes a floating-point number with the fewest decimal digits that
read back as the same number. The numbers that round to a given one form an
interval; the digits are those of the coarsest decimal grid with a point in
that interval, and of two such points the nearer one, a tie going up.
-/

import BytecodeMachine.FloatFormat

namespace BytecodeMachine

/-- The reals `low / unit` to `high / unit` round to the number `value / unit`, with both
ends included when `closed`. -/
structure RoundingInterval where
  low : Nat
  value : Nat
  high : Nat
  unit : Nat
  closed : Bool

namespace RoundingInterval

/-- The interval of a finite number reaches half way to its two neighbours, of which the lower
one is half as far when the significand is a power of two, and includes the ends when the
significand is even. -/
def ofBits (format : FloatFormat) (bits : Nat) : RoundingInterval :=
  let significand := format.significand bits
  let gap := Nat.pow 2 (format.scale bits)
  let below := if format.fraction bits = 0 ∧ 1 < format.exponent bits then gap else 2 * gap
  { low := 4 * significand * gap - below
    value := 4 * significand * gap
    high := 4 * significand * gap + 2 * gap
    unit := 4 * format.denominator
    closed := significand % 2 == 0 }

/-- The interval seen on the decimal grid whose step is ten to the minus `places`. -/
def onGrid (interval : RoundingInterval) (places : Int) : RoundingInterval :=
  let factor := Nat.pow 10 places.toNat
  { interval with
    low := interval.low * factor
    value := interval.value * factor
    high := interval.high * factor
    unit := interval.unit * Nat.pow 10 (-places).toNat }

/-- Whether a whole number lies in the interval. -/
def contains (interval : RoundingInterval) (candidate : Nat) : Bool :=
  let position := candidate * interval.unit
  if interval.closed then interval.low ≤ position && position ≤ interval.high
  else interval.low < position && position < interval.high

/-- The whole number in the interval that is nearest to its value, a tie going up. -/
def nearest? (interval : RoundingInterval) : Option Nat :=
  let floor := interval.value / interval.unit
  let nearer :=
    if 2 * (interval.value % interval.unit) < interval.unit then [floor, floor + 1]
    else [floor + 1, floor]
  nearer.find? interval.contains

/-- The exponent of the first decimal digit of the value. -/
def leadingExponent (interval : RoundingInterval) : Int :=
  if interval.unit ≤ interval.value then
    (Nat.toDigits 10 (interval.value / interval.unit)).length - 1
  else
    let places := (List.range (interval.unit.log2 + 2)).find? fun places =>
      interval.unit ≤ interval.value * Nat.pow 10 places
    Int.negOfNat (places.getD 0)

/-- The digits of the shortest decimal in the interval, and the exponent of the first one.
Seventeen digits tell all numbers of both formats apart. -/
def shortest (interval : RoundingInterval) : List Char × Int :=
  let leading := interval.leadingExponent
  let found := (List.range 17).findSome? fun (more : Nat) =>
    (interval.onGrid (more - leading)).nearest?.map fun whole =>
      let digits := Nat.toDigits 10 whole
      let kept := (digits.reverse.dropWhile (· == '0')).reverse
      (kept, leading - more + digits.length - 1)
  found.getD (['0'], 0)

end RoundingInterval

namespace FloatFormat

/-- A decimal with the given digits, the first of which counts ten to the `exponent`, is
written positionally from `0.0001` up to sixteen digits before the point, and otherwise with
an exponent. -/
def decimalText (digits : List Char) (exponent : Int) : String :=
  if -4 ≤ exponent ∧ exponent < 16 then
    let before := (exponent + 1).toNat
    let padded := List.replicate (-exponent).toNat '0' ++ digits ++
      List.replicate (before - digits.length) '0'
    let whole := padded.take (max before 1)
    let rest := padded.drop (max before 1)
    String.ofList whole ++ "." ++ String.ofList (if rest.isEmpty then ['0'] else rest)
  else
    let rest := digits.drop 1
    String.ofList (digits.take 1) ++ (if rest.isEmpty then "" else "." ++ String.ofList rest) ++
      "e" ++ toString exponent

/-- A number is written with the fewest digits that read back as it, always with a point or an
exponent; a zero keeps its sign, and what is no finite number has a name. -/
def text (format : FloatFormat) (bits : Nat) : String :=
  if format.isNaN bits then "NaN"
  else
    let sign := if format.isNegative bits then "-" else ""
    if !format.isFinite bits then sign ++ "inf"
    else if format.isZero bits then sign ++ "0.0"
    else
      let (digits, exponent) := (RoundingInterval.ofBits format bits).shortest
      sign ++ decimalText digits exponent

end FloatFormat

end BytecodeMachine
