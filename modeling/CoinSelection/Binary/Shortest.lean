import CoinSelection.Binary.Single

/-!
# Decimal text of a number

A finite number is written with the fewest digits that read back as it.  The
reals that round to it form an interval; of the decimal grids, from the
coarsest down, the first that has a point in the interval gives the digits.
Only the two grid points next to the number have to be tried: if any point of
the grid lies in the interval, one of these does.

How the digits are laid out is a separate decision, held in a `Layout`.
-/

namespace CoinSelection.Binary

/-! ## Digits -/

/-- A positive decimal number: `digits * 10 ^ exponent`. -/
structure Decimal where
  digits : Nat
  exponent : Int
  deriving DecidableEq, Repr

/-- The reals that round to a magnitude, in quarters of a unit. -/
structure Interval where
  low : Nat
  middle : Nat
  high : Nat
  closed : Bool

/-- The interval of a magnitude.  It reaches half way to both neighbours; below
a power of two these are twice as dense.  The ends round to even significands. -/
def Interval.around (format : Format) (units : Nat) : Interval :=
  let step := format.spacing units
  let isLowest := units = 1 <<< (Format.bitLength units - 1) ∧ 1 < step
  { low := 4 * units - (if isLowest then step else 2 * step)
    middle := 4 * units
    high := 4 * units + 2 * step
    closed := units / step % 2 = 0 }

/-- Whether a point lies in an interval stretched by `stretch`. -/
def Interval.contains (interval : Interval) (stretch point : Nat) : Bool :=
  if interval.closed then
    interval.low * stretch ≤ point ∧ point ≤ interval.high * stretch
  else
    interval.low * stretch < point ∧ point < interval.high * stretch

/-- The grid point of an interval for which `count` multiples of `spacing` are
taken, the nearer one if both neighbours of the middle lie inside. -/
def Interval.gridPoint? (interval : Interval) (tie : Tie) (stretch spacing : Nat) :
    Option Nat :=
  let below := interval.middle * stretch / spacing
  match interval.contains stretch (below * spacing),
      interval.contains stretch ((below + 1) * spacing) with
  | true, true => some (roundQuotient tie (interval.middle * stretch) spacing)
  | true, false => some below
  | false, true => some (below + 1)
  | false, false => none

/-- The first grid with a point in the interval.  Grid `rank` has the spacing
`10 ^ (rank - fractionBits)`; the finest, rank zero, holds the number itself. -/
def firstGrid (format : Format) (tie : Tie) (interval : Interval) : Nat → Decimal
  | 0 => ⟨interval.middle * Nat.pow 10 format.fractionBits / (4 * format.one), -format.fractionBits⟩
  | rank + 1 =>
      let stretch := Nat.pow 10 (format.fractionBits - (rank + 1))
      let spacing := 4 * format.one * Nat.pow 10 (rank + 1 - format.fractionBits)
      match interval.gridPoint? tie stretch spacing with
      | some point => ⟨point, ((rank + 1 : Nat) : Int) - format.fractionBits⟩
      | none => firstGrid format tie interval rank

/-- The fewest digits that read back as a positive magnitude, and of those the
nearest. -/
def shortest (format : Format) (tie : Tie) (units : Nat) : Decimal :=
  firstGrid format tie (.around format units) (max (Format.bitLength units) format.fractionBits)

/-! ## Layout -/

/-- How a decimal number is laid out. -/
structure Layout where
  /-- Which of two equally near digits is written. -/
  tie : Tie
  /-- The exponents of the leading digit for which a number is written without
  an exponent, or every one. -/
  positional : Option (Int × Int)
  /-- What follows an integer that is written without an exponent. -/
  integerEnd : String

/-- The form that data takes: a point in every number, and an exponent for very
small and very large ones. -/
def Layout.data : Layout := ⟨.toEven, some (-6, 12), ".0"⟩

/-- The form that messages take: never an exponent. -/
def Layout.plain : Layout := ⟨.upward, none, ""⟩

namespace Layout

/-- A list of zeros. -/
def zeros (count : Nat) : List Char :=
  List.replicate count '0'

/-- Whether a leading digit at `exponent` is written without an exponent. -/
def isPositional (layout : Layout) (exponent : Int) : Bool :=
  match layout.positional with
  | none => true
  | some (least, greatest) => least ≤ exponent ∧ exponent ≤ greatest

/-- Digits with the point at its place.  The last digit stands at
`10 ^ exponent`. -/
def placePoint (layout : Layout) (digits : List Char) (exponent : Int) : List Char :=
  if 0 ≤ exponent then
    digits ++ zeros exponent.toNat ++ layout.integerEnd.toList
  else
    let places := (-exponent).toNat
    if places < digits.length then
      digits.take (digits.length - places) ++ '.' :: digits.drop (digits.length - places)
    else
      '0' :: '.' :: zeros (places - digits.length) ++ digits

/-- Digits with a point after the first and an exponent. -/
def withExponent (digits : List Char) (leading : Int) : List Char :=
  let fraction := digits.drop 1
  digits.take 1 ++ (if fraction.isEmpty then [] else '.' :: fraction) ++
    'e' :: (if leading < 0 then '-' else '+') :: Nat.toDigits 10 leading.natAbs

/-- The text of a positive decimal number. -/
def ofDecimal (layout : Layout) (decimal : Decimal) : List Char :=
  let digits := Nat.toDigits 10 decimal.digits
  let leading := decimal.exponent + digits.length - 1
  if layout.isPositional leading then layout.placePoint digits decimal.exponent
  else withExponent digits leading

/-- The text of a finite number of the thirty-two bit format. -/
def ofFinite (layout : Layout) (negative : Bool) (units : Nat) : String :=
  let written :=
    if units = 0 then layout.placePoint ['0'] 0
    else layout.ofDecimal (shortest single layout.tie units)
  String.ofList (if negative then '-' :: written else written)

end Layout

/-- The text of a number in a message. -/
def Single.message (number : Single) : String :=
  match number.value with
  | .nan => "NaN"
  | .infinite negative => if negative then "-inf" else "inf"
  | .finite negative units => Layout.plain.ofFinite negative units

end CoinSelection.Binary
