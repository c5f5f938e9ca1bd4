import CoinSelection.Hex

/-!
# Public keys in descriptors

A key is a point of the curve `y ^ 2 = x ^ 3 + 7` over a prime field, written
in hexadecimal digits: both coordinates behind `04`, the first coordinate
behind `02` or `03`, or the first coordinate alone.  Only the form of a key
decides the weight of spending with it, so only the form is kept.
-/

namespace CoinSelection.Descriptor

/-! ## The curve -/

/-- The size of the field. -/
def fieldSize : Nat :=
  1 <<< 256 - 1 <<< 32 - 977

/-- `base ^ exponent` modulo `modulus`, by repeated squaring of the base.  The
first argument bounds the bits of the exponent. -/
def powerModulo (modulus : Nat) : Nat → Nat → Nat → Nat
  | 0, _, _ => 1 % modulus
  | bits + 1, base, exponent =>
      let rest := powerModulo modulus bits (base * base % modulus) (exponent / 2)
      if exponent % 2 = 1 then base * rest % modulus else rest

/-- The right-hand side of the equation of the curve. -/
def curveRight (x : Nat) : Nat :=
  (x * x * x + 7) % fieldSize

/-- Whether `x` is the first coordinate of a point: the right-hand side is a
square, and it is never zero. -/
def isFirstCoordinate (x : Nat) : Bool :=
  x < fieldSize &&
    powerModulo fieldSize 256 (curveRight x) ((fieldSize - 1) / 2) == 1

/-- Whether `x` and `y` are the coordinates of a point. -/
def isPoint (x y : Nat) : Bool :=
  x < fieldSize && y < fieldSize && y * y % fieldSize == curveRight x

/-! ## Forms -/

/-- The form in which a key is written. -/
inductive KeyForm
  | compressed
  | uncompressed
  | xOnly
  deriving DecidableEq, Repr

/-- Bytes as a number, the first byte being the highest. -/
def bigEndian (bytes : List UInt8) : Nat :=
  bytes.foldl (fun number byte => 256 * number + byte.toNat) 0

/-- Read the form of a key from its bytes. -/
def KeyForm.ofBytes? (bytes : List UInt8) : Option KeyForm :=
  match bytes.length, bytes with
  | 32, _ => if isFirstCoordinate (bigEndian bytes) then some .xOnly else none
  | 33, first :: rest =>
      if (first = 2 ∨ first = 3) ∧ isFirstCoordinate (bigEndian rest) then some .compressed
      else none
  | 65, first :: rest =>
      if first = 4 ∧ isPoint (bigEndian (rest.take 32)) (bigEndian (rest.drop 32)) then
        some .uncompressed
      else none
  | _, _ => none

/-- Read the form of a key from its text. -/
def KeyForm.parse? (text : String) : Option KeyForm :=
  match Hex.decode text with
  | .ok bytes => KeyForm.ofBytes? bytes
  | .error _ => none

end CoinSelection.Descriptor
