import CoinSelection.Binary.Single
import CoinSelection.Checked

/-!
# Fee rates

A fee rate is a number of satoshi per virtual byte.  Fees are computed from the
whole number of satoshi per thousand virtual bytes next to it.
-/

namespace CoinSelection

open Binary

/-- A fee rate. -/
structure FeeRate where
  satPerVbyte : Single
  deriving DecidableEq

namespace FeeRate

/-! ## Rates -/

/-- The rate given as a number of bitcoin per thousand virtual bytes. -/
def ofBtcPerKvb (number : Single) : FeeRate :=
  ⟨number.scale 100000⟩

/-- Spending is free. -/
def zero : FeeRate :=
  ⟨.ofNat 0 false⟩

/-- The least rate that is relayed. -/
def minimumRelay : FeeRate :=
  ⟨.ofNat 1 false⟩

/-- The rate at which spending an output tells whether it is dust. -/
def dustRelay : FeeRate :=
  ⟨.ofNat 3 false⟩

instance : Inhabited FeeRate :=
  ⟨minimumRelay⟩

/-! ## Observations -/

/-- The whole number of satoshi per thousand virtual bytes: the product is rounded
to the format, and then to the nearest whole number.  A negative rate counts as
zero, and one too large for a word as the greatest word. -/
def toSatPerKvb (rate : FeeRate) : Nat :=
  (rate.satPerVbyte.scale 1000).value.toNatSaturating Checked.greatestWord

/-- Whether the rate is finite and not negative. -/
def isValid (rate : FeeRate) : Bool :=
  rate.satPerVbyte.value.isNonnegative

/-- Compare two rates; there is no answer if one is not a number. -/
def compare? (first second : FeeRate) : Option Ordering :=
  first.satPerVbyte.compare? second.satPerVbyte

/-- Accept a valid rate and refuse any other. -/
def validate (rate : FeeRate) : Outcome Unit :=
  if rate.isValid then .ok () else refuse (.invalidFeeRate rate.satPerVbyte)

theorem validate_eq_ok_iff {rate : FeeRate} :
    rate.validate = .ok () ↔ rate.isValid = true := by
  by_cases valid : rate.isValid = true <;> simp [validate, refuse, valid]

/-- The refusal names the rate. -/
theorem validate_eq_error_iff {rate : FeeRate} {failure : Failure} :
    rate.validate = .error failure ↔
      rate.isValid = false ∧ failure = .error (.invalidFeeRate rate.satPerVbyte) := by
  by_cases valid : rate.isValid = true <;> simp [validate, refuse, valid, eq_comm]

end FeeRate

end CoinSelection
