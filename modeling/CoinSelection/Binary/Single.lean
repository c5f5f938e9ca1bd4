import CoinSelection.Binary.Format

/-!
# Numbers of the thirty-two bit format

`Single` is the stored form, thirty-two bits; `Value` is what the bits stand
for.  Operations go through `Value`, where a finite number is a sign and a
count of units of `2 ^ -149`.
-/

namespace CoinSelection.Binary

/-- A number of the thirty-two bit format. -/
structure Single where
  bits : UInt32
  deriving DecidableEq, Repr

/-- What the bits of a number stand for. -/
inductive Value
  | nan
  | infinite (negative : Bool)
  | finite (negative : Bool) (units : Nat)
  deriving DecidableEq, Repr

namespace Value

/-- The number that a magnitude with a sign stands for; no magnitude means that
it was too large. -/
def ofMagnitude (negative : Bool) : Option Nat → Value
  | some units => .finite negative units
  | none => .infinite negative

/-- A number given in another format, rounded to this one. -/
def ofFormat (format : Format) (negative : Bool) (units : Nat) : Value :=
  ofMagnitude negative (single.round (units * single.one) format.one)

/-- Multiply by a natural number that the format represents exactly. -/
def scale (factor : Nat) : Value → Value
  | .nan => .nan
  | .infinite negative => .infinite negative
  | .finite negative units =>
      ofMagnitude negative (single.mul units (factor * single.one))

/-- The position of a number in the order; the two zeros share one, and what is
not a number has none. -/
def rank : Value → Option Int
  | .nan => none
  | .infinite negative => some (if negative then -1 <<< 278 else 1 <<< 278)
  | .finite negative units => some (if negative then -(units : Int) else units)

/-- Finite and not below zero. -/
def isNonnegative : Value → Bool
  | .finite negative units => !negative || units == 0
  | _ => false

/-- The nearest natural number, a half going up, between zero and `limit`.
What is not a number goes to zero. -/
def toNatSaturating (limit : Nat) : Value → Nat
  | .nan => 0
  | .infinite negative => if negative then 0 else limit
  | .finite true _ => 0
  | .finite false units => min (roundQuotient .upward units single.one) limit

end Value

namespace Single

/-! ## Bits and values -/

/-- The bits of a value.  Every value that is not a number gets the same bits. -/
def ofValue : Value → Single
  | .nan => ⟨0x7fc00000⟩
  | .infinite negative => ⟨UInt32.ofNat (0x7f800000 + sign negative)⟩
  | .finite negative units =>
      let field := Format.bitLength units - 23
      let fraction := if field = 0 then units else units / 1 <<< (field - 1) - 1 <<< 23
      ⟨UInt32.ofNat (sign negative + field * 1 <<< 23 + fraction)⟩
where
  sign (negative : Bool) : Nat := if negative then 1 <<< 31 else 0

/-- The value that the bits stand for. -/
def value (number : Single) : Value :=
  let bits := number.bits.toNat
  let negative := decide (1 <<< 31 ≤ bits)
  let field := bits / 1 <<< 23 % 1 <<< 8
  let fraction := bits % 1 <<< 23
  if field = 255 then
    if fraction = 0 then .infinite negative else .nan
  else if field = 0 then .finite negative fraction
  else .finite negative ((1 <<< 23 + fraction) * 1 <<< (field - 1))

/-- A natural number, rounded. -/
def ofNat (n : Nat) (negative : Bool) : Single :=
  ofValue (.ofMagnitude negative (single.ofNat n))

/-- Multiply by a natural number that the format represents exactly. -/
def scale (factor : Nat) (number : Single) : Single :=
  ofValue (number.value.scale factor)

/-! ## Order -/

/-- Compare two numbers; there is no answer if one is not a number. -/
def compare? (first second : Single) : Option Ordering :=
  match first.value.rank, second.value.rank with
  | some firstRank, some secondRank => some (compare firstRank secondRank)
  | _, _ => none

end Single

end CoinSelection.Binary
