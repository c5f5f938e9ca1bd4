import CoinSelection.Fee
import CoinSelection.Filter

/-!
# Options of a selection

The options hold the rates that fees are computed at and the sizes that they
are computed for.  Sizes are in virtual bytes; the defaults are those of a
transaction that spends to and from witness key hashes.
-/

namespace CoinSelection

/-- How a selection is made. -/
structure Options where
  /-- Look for a selection without change first. -/
  useBranchAndBound : Bool := true
  /-- The size of a change output. -/
  changeOutputSize : UInt64 := 8 + 1 + 22
  /-- The size of the input that will spend the change. -/
  changeSpendSize : UInt64 := 68
  /-- The rate that the transaction pays. -/
  effectiveRate : FeeRate := .zero
  /-- The rate expected in the long run. -/
  longTermRate : FeeRate := .zero
  /-- The rate at which the change will be spent. -/
  discardRate : FeeRate := .dustRelay
  /-- The size of the transaction without its inputs. -/
  noInputsSize : UInt64 := 11
  /-- The change that is left if there has to be one, where it is given. -/
  minimumChange? : Option UInt64 := none
  /-- The asset that fees are paid in. -/
  feeAsset : Option AssetId := none
  deriving DecidableEq

/-- The fee calculators of one selection. -/
structure Fees where
  effective : FeeCalculator := {}
  longTerm : FeeCalculator := {}
  discard : FeeCalculator := {}
  deriving DecidableEq

/-- The change that is left where the options do not say. -/
def defaultMinimumChange : Nat := 1000000

namespace Options

/-- Reset all sizes to their defaults. -/
def withDefaultSizes (options : Options) : Options :=
  let defaults : Options := {}
  { options with
    changeOutputSize := defaults.changeOutputSize
    changeSpendSize := defaults.changeSpendSize
    noInputsSize := defaults.noInputsSize }

/-- Refuse options with a rate that is negative or not finite, naming the first
such rate. -/
def validate (options : Options) : Outcome Unit := do
  options.effectiveRate.validate
  options.longTermRate.validate
  options.discardRate.validate

/-- The change that is left if there has to be one. -/
def minimumChange (options : Options) : Nat :=
  (options.minimumChange?.map UInt64.toNat).getD defaultMinimumChange

/-- Whether the outputs that pass a filter pay the fees: not if they are of
another asset than the one that fees are paid in. -/
def paysFee (options : Options) (filter : Filter) : Bool :=
  match options.feeAsset, filter.targetAsset with
  | some feeAsset, some targetAsset => feeAsset == targetAsset
  | _, _ => true

/-- The calculators of a selection.  Outputs that do not pay the fees are
priced at zero. -/
def fees (options : Options) (paysFee : Bool) : Fees :=
  if paysFee then
    { effective := .ofRate options.effectiveRate
      longTerm := .ofRate options.longTermRate
      discard := .ofRate options.discardRate }
  else
    { discard := .ofRate options.discardRate }

end Options

namespace Fees

/-- The fee for the parts of the transaction that are not inputs. -/
def notInputFees (fees : Fees) (options : Options) : Outcome Nat :=
  fees.effective.fee options.noInputsSize.toNat

/-- What a change output costs: to create it now and to spend it later.  A
selection that exceeds its target by no more is better off without change. -/
def costOfChange (fees : Fees) (options : Options) : Outcome Nat := do
  let spending ← fees.discard.fee options.changeSpendSize.toNat
  let creating ← fees.effective.fee options.changeOutputSize.toNat
  Checked.add spending creating

end Fees

end CoinSelection
