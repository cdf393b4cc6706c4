/-
Single-precision numbers, given by their bits, and the literals written for them.  A number without a
fraction is written with all its digits and `.0`; any other finite number with the fewest digits that
read back as the same number.  No literal has an exponent.
-/
import ShaderLift.Decimal.Shortest
import ShaderLift.Word

namespace ShaderLift

/-- A single-precision number: sign bit, eight exponent bits, twenty-three fraction bits. -/
structure Single where
  bits : Word
  deriving Repr, DecidableEq

namespace Single

def negative (s : Single) : Bool :=
  Word.flag s.bits 31

def exponentField (s : Single) : Nat :=
  Word.field s.bits 23 8

def fractionField (s : Single) : Nat :=
  Word.field s.bits 0 23

def isFinite (s : Single) : Bool :=
  s.exponentField != 255

/-- The whole number `m` such that the magnitude is `m * 2 ^ (scale - 149)`. -/
def significand (s : Single) : Nat :=
  if s.exponentField = 0 then s.fractionField else Nat.pow 2 23 + s.fractionField

/-- The number of powers of two above the smallest positive number. -/
def scale (s : Single) : Nat :=
  s.exponentField - 1

def units (s : Single) : Nat :=
  s.significand * Nat.pow 2 s.scale

def isIntegral (s : Single) : Bool :=
  s.units % Nat.pow 2 149 == 0

/-- The interval of the numbers that round to a finite nonzero magnitude, in quarters of the spacing
of its neighbours.  Below the first number of a binade the spacing is half as large. -/
def rounding (s : Single) : Decimal.Rounding where
  low := (4 * s.significand - (if s.fractionField = 0 ∧ 1 < s.exponentField then 1 else 2))
    * Nat.pow 2 s.scale
  value := 4 * s.significand * Nat.pow 2 s.scale
  high := (4 * s.significand + 2) * Nat.pow 2 s.scale
  den := Nat.pow 2 151
  closed := s.significand % 2 == 0

/-- The magnitude of a finite number as a decimal. -/
def magnitude (s : Single) : String :=
  if s.isIntegral then toString (s.units / Nat.pow 2 149) ++ ".0"
  else
    let d := s.rounding.shortestFrom 149 1
    Decimal.positional d.1 d.2

def literal (s : Single) : String :=
  if s.isFinite then (if s.negative then "-" else "") ++ s.magnitude
  else if s.fractionField != 0 then "NaN"
  else if s.negative then "-inf"
  else "inf"

end Single

end ShaderLift
