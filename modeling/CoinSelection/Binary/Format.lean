/-!
# Binary number formats

The finite numbers of a binary interchange format are multiples of its least
positive number.  This file counts in that unit, so that a magnitude is a
natural number and every operation is one exact rational result followed by
one rounding: to nearest, a tie going to the even neighbour.
-/

namespace CoinSelection.Binary

/-! ## Rounding a quotient -/

/-- Which neighbour a number halfway between two others goes to. -/
inductive Tie
  | toEven
  | upward
  deriving DecidableEq, Repr

/-- Whether `Tie` sends the tie above `floor` up. -/
def Tie.raises : Tie → Nat → Bool
  | .toEven, floor => floor % 2 = 1
  | .upward, _ => true

/-- The integer nearest to a quotient. -/
def roundQuotient (tie : Tie) (numerator denominator : Nat) : Nat :=
  let floor := numerator / denominator
  let remainder := numerator % denominator
  if 2 * remainder < denominator then floor
  else if denominator < 2 * remainder then floor + 1
  else if tie.raises floor then floor + 1
  else floor

/-! ## Formats -/

/-- A format: the bits of a significand, the bits after the binary point that
its unit lies behind, and the bits that bound its magnitudes. -/
structure Format where
  precision : Nat
  fractionBits : Nat
  rangeBits : Nat

/-- The thirty-two bit format. -/
def single : Format := ⟨24, 149, 277⟩

/-- The sixty-four bit format. -/
def double : Format := ⟨53, 1074, 2098⟩

namespace Format

/-- The units in the number one. -/
def one (format : Format) : Nat :=
  1 <<< format.fractionBits

/-- The number of bits of a natural number. -/
def bitLength (n : Nat) : Nat :=
  if n = 0 then 0 else Nat.log2 n + 1

/-- The distance of neighbouring magnitudes around `units`. -/
def spacing (format : Format) (units : Nat) : Nat :=
  1 <<< (bitLength units - format.precision)

/-- The magnitude nearest to `numerator / denominator` units, if there is one
below the bound of the format. -/
def round (format : Format) (numerator denominator : Nat) : Option Nat :=
  let step := format.spacing (numerator / denominator)
  let units := roundQuotient .toEven numerator (denominator * step) * step
  if units < 1 <<< format.rangeBits then some units else none

/-- The magnitude nearest to a natural number. -/
def ofNat (format : Format) (n : Nat) : Option Nat :=
  format.round (n * format.one) 1

/-- The product of two magnitudes. -/
def mul (format : Format) (first second : Nat) : Option Nat :=
  format.round (first * second) format.one

/-- The quotient of two magnitudes. -/
def div (format : Format) (dividend divisor : Nat) : Option Nat :=
  format.round (dividend * format.one) divisor

end Format

end CoinSelection.Binary
