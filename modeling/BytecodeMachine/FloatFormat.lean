/-
This file reads the binary floating-point formats from their bits. A number is
kept as its bits everywhere in the machine, so that every pattern, each of the
many NaNs included, passes through unchanged; here stands what the bits mean
and when two patterns count as the same number.
-/

namespace BytecodeMachine

/-- A binary interchange format is given by the widths of its exponent and its fraction. -/
structure FloatFormat where
  exponentBits : Nat
  fractionBits : Nat
deriving DecidableEq

namespace FloatFormat

/-- The format of 32 bits. -/
def single : FloatFormat := ⟨8, 23⟩

/-- The format of 64 bits. -/
def double : FloatFormat := ⟨11, 52⟩

variable (format : FloatFormat) (bits : Nat)

/-- The fraction stands in the lowest bits. -/
def fraction : Nat :=
  bits % Nat.pow 2 format.fractionBits

/-- The biased exponent stands above the fraction. -/
def exponent : Nat :=
  bits / Nat.pow 2 format.fractionBits % Nat.pow 2 format.exponentBits

/-- The sign is the highest bit. -/
def isNegative : Bool :=
  bits / Nat.pow 2 (format.fractionBits + format.exponentBits) % 2 == 1

/-- An exponent of ones only marks the patterns that are no finite number. -/
def isFinite : Bool :=
  format.exponent bits != Nat.pow 2 format.exponentBits - 1

/-- A NaN is not finite and has a fraction. -/
def isNaN : Bool :=
  !format.isFinite bits && format.fraction bits != 0

/-- Zero has neither exponent nor fraction; its sign may be set. -/
def isZero : Bool :=
  format.exponent bits == 0 && format.fraction bits == 0

/-- Two patterns are the same number when neither is a NaN and they agree or are both zeros. -/
def equal (left right : Nat) : Bool :=
  !format.isNaN left && !format.isNaN right &&
    (left == right || format.isZero left && format.isZero right)

/-- The significand has a leading one unless the exponent is zero. -/
def significand : Nat :=
  if format.exponent bits = 0 then format.fraction bits
  else Nat.pow 2 format.fractionBits + format.fraction bits

/-- A finite number is its significand times two to the `scale`, divided by `denominator`. -/
def scale : Nat :=
  max (format.exponent bits) 1

/-- The power of two that divides every significand of the format. -/
def denominator : Nat :=
  Nat.pow 2 (Nat.pow 2 (format.exponentBits - 1) - 1 + format.fractionBits)

end FloatFormat

end BytecodeMachine
