import CoinSelection.Binary.Single
import CoinSelection.Json.Fault

/-!
# Numerals

A numeral is kept as it is written: a sign, whole digits, and possibly digits
after a point and an exponent.  What number it stands for depends on who asks.
A plain numeral without sign, point and exponent is a natural number.  Any
numeral is a number of the sixty-four bit format, unless it is too large.

The conversion to that format is not always correctly rounded: it collects
digits into one machine word, and then multiplies or divides once by a power of
ten.
-/

namespace CoinSelection.Json

open Binary

/-- The exponent of a numeral. -/
structure Exponent where
  negative : Bool
  digits : List Char
  deriving DecidableEq, Repr

/-- A number as it is written. -/
structure Numeral where
  negative : Bool
  whole : List Char
  fraction : Option (List Char) := none
  exponent : Option Exponent := none
  deriving DecidableEq, Repr

/-! ## Reading -/

/-- A numeral, or the faults that take its place when it is read and when it is
skipped; and what follows, unless there is a fault. -/
structure NumeralReading where
  numeral : Except (Fault × Fault) Numeral
  rest : Option (List Char)

namespace NumeralReading

/-- A complete numeral. -/
def complete (numeral : Numeral) (rest : List Char) : NumeralReading :=
  ⟨.ok numeral, some rest⟩

/-- A digit is missing.  At the end of the text a reader may hope for one, and
who only skips the numeral does not. -/
def missingDigit (rest : List Char) : NumeralReading :=
  ⟨.error (if rest.isEmpty then .truncated else .malformed, .malformed), none⟩

/-- A character that cannot stand here. -/
def malformed : NumeralReading :=
  ⟨.error (.malformed, .malformed), none⟩

end NumeralReading

namespace Numeral

/-- Split digits off the front of a text. -/
def splitDigits (text : List Char) : List Char × List Char :=
  (text.takeWhile Char.isDigit, text.dropWhile Char.isDigit)

/-- Read the digits of an exponent after its sign. -/
def readExponentDigits (numeral : Numeral) (negative : Bool) (text : List Char) :
    NumeralReading :=
  let (digits, rest) := splitDigits text
  if digits.isEmpty then .missingDigit rest
  else .complete { numeral with exponent := some ⟨negative, digits⟩ } rest

/-- Read an exponent after its letter. -/
def readExponent (numeral : Numeral) : List Char → NumeralReading
  | '-' :: rest => numeral.readExponentDigits true rest
  | '+' :: rest => numeral.readExponentDigits false rest
  | text => numeral.readExponentDigits false text

/-- Read an exponent, if there is one. -/
def readEnd (numeral : Numeral) : List Char → NumeralReading
  | 'e' :: rest => numeral.readExponent rest
  | 'E' :: rest => numeral.readExponent rest
  | text => .complete numeral text

/-- Read what follows the whole digits. -/
def readFraction (numeral : Numeral) : List Char → NumeralReading
  | '.' :: text =>
      let (digits, rest) := splitDigits text
      if digits.isEmpty then .missingDigit rest
      else readEnd { numeral with fraction := some digits } rest
  | text => numeral.readEnd text

/-- Read a numeral after its sign.  A zero in front of other digits is not
allowed. -/
def readUnsigned (negative : Bool) (text : List Char) : NumeralReading :=
  let (digits, rest) := splitDigits text
  if digits.isEmpty then .missingDigit rest
  else if digits.head? = some '0' ∧ 1 < digits.length then .malformed
  else readFraction { negative, whole := digits } rest

/-- Read a numeral from its first character. -/
def read : List Char → NumeralReading
  | '-' :: text => readUnsigned true text
  | text => readUnsigned false text

/-! ## Natural numbers -/

/-- The number that digits stand for. -/
def ofDigits (digits : List Char) : Nat :=
  Nat.ofDigitChars 10 digits 0

/-- The natural number that a plain numeral stands for. -/
def natural? (numeral : Numeral) : Option Nat :=
  if numeral.negative ∨ numeral.fraction.isSome ∨ numeral.exponent.isSome then none
  else some (ofDigits numeral.whole)

/-! ## Numbers of the sixty-four bit format -/

/-- A collected number: `significand * 10 ^ exponent`. -/
structure Collected where
  significand : Nat
  exponent : Int

/-- Put a digit behind a significand, if the result is below `2 ^ 64`. -/
def pushDigit? (significand : Nat) (digit : Char) : Option Nat :=
  let next := 10 * significand + (digit.toNat - '0'.toNat)
  if next < 1 <<< 64 then some next else none

/-- Collect whole digits.  Once a digit does not fit, it and all after it only
scale the significand. -/
def collectWhole (significand : Nat) : List Char → Collected
  | [] => ⟨significand, 0⟩
  | digit :: rest =>
      match pushDigit? significand digit with
      | some next => collectWhole next rest
      | none => ⟨significand, rest.length + 1⟩

/-- Collect the digits after the point, up to the first that does not fit. -/
def collectFraction (collected : Collected) : List Char → Collected
  | [] => collected
  | digit :: rest =>
      match pushDigit? collected.significand digit with
      | some next => collectFraction ⟨next, collected.exponent - 1⟩ rest
      | none => collected

/-- The value of an exponent. -/
def exponentValue (exponent : Exponent) : Int :=
  if exponent.negative then -(ofDigits exponent.digits : Int) else ofDigits exponent.digits

/-- The significand and the exponent that a numeral is converted from. -/
def collect (numeral : Numeral) : Collected :=
  let collected :=
    collectFraction (collectWhole 0 numeral.whole) (numeral.fraction.getD [])
  { collected with
    exponent := collected.exponent + (numeral.exponent.map exponentValue).getD 0 }

/-- The greatest exponent of a power of ten of the format. -/
def greatestPower : Nat := 308

/-- The magnitude of a power of ten. -/
def powerOfTen (exponent : Nat) : Option Nat :=
  double.ofNat (Nat.pow 10 exponent)

/-- Divide a magnitude by a power of ten, in steps if the power is too large
for the format.  Every step but the last takes `greatestPower` off the
exponent. -/
def divideByPower (magnitude exponent : Nat) : Option Nat :=
  if magnitude = 0 then some 0
  else if exponent ≤ greatestPower then do
    double.div magnitude (← powerOfTen exponent)
  else do
    let quotient ← double.div magnitude (← powerOfTen greatestPower)
    divideByPower quotient (exponent - greatestPower)
termination_by exponent
decreasing_by simp only [greatestPower] at *; omega

/-- Multiply a magnitude by a power of ten, if the result is not too large. -/
def multiplyByPower (magnitude exponent : Nat) : Option Nat :=
  if magnitude = 0 then some 0
  else if exponent ≤ greatestPower then do
    double.mul magnitude (← powerOfTen exponent)
  else none

/-- The magnitude that a numeral stands for in the sixty-four bit format, unless
it is too large. -/
def doubleMagnitude? (numeral : Numeral) : Option Nat := do
  let collected := numeral.collect
  let magnitude ← double.ofNat collected.significand
  if collected.exponent < 0 then divideByPower magnitude collected.exponent.natAbs
  else multiplyByPower magnitude collected.exponent.natAbs

/-! ## Numbers of the thirty-two bit format -/

/-- The number of the sixty-four bit format that a numeral stands for, rounded
to the thirty-two bit format. -/
def singleOfDouble? (numeral : Numeral) : Option Single :=
  numeral.doubleMagnitude?.map fun magnitude =>
    .ofValue (.ofFormat double numeral.negative magnitude)

/-- Whether a numeral is an integer of sixty-four bits, unsigned or signed.  The
negative zero is not an integer. -/
def isWord (numeral : Numeral) : Bool :=
  let magnitude := ofDigits numeral.whole
  numeral.fraction.isNone && numeral.exponent.isNone &&
    if numeral.negative then 0 < magnitude ∧ magnitude ≤ 1 <<< 63 else magnitude < 1 <<< 64

/-- The number of the thirty-two bit format that a numeral stands for.  An
integer of sixty-four bits is rounded once; any other numeral goes through the
larger format. -/
def single? (numeral : Numeral) : Option Single :=
  if numeral.isWord then some (.ofNat (ofDigits numeral.whole) numeral.negative)
  else numeral.singleOfDouble?

/-! ## Elementary laws -/

/-- The digits of a natural number stand for it. -/
@[simp]
theorem ofDigits_toDigits (n : Nat) : ofDigits (Nat.toDigits 10 n) = n :=
  Nat.ofDigitChars_toDigits (by decide) (by decide)

@[simp]
theorem natural?_plain (whole : List Char) :
    natural? { negative := false, whole } = some (ofDigits whole) :=
  rfl

end Numeral

end CoinSelection.Json
