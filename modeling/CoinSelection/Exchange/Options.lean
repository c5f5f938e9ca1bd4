import CoinSelection.Exchange.Scalar
import CoinSelection.Json.Record
import CoinSelection.Options

/-!
# Options as records

All options are written, and none has to be given.
-/

namespace CoinSelection.Options

open Json

/-- Write options. -/
def toJson (options : Options) : Value :=
  .object
    [("useBnb", .bool options.useBranchAndBound),
      ("changeOutputSize", wordToJson options.changeOutputSize),
      ("changeSpendSize", wordToJson options.changeSpendSize),
      ("effectiveFeeBaserate", options.effectiveRate.toJson),
      ("longTermFeeBaserate", options.longTermRate.toJson),
      ("discardFeeRate", options.discardRate.toJson),
      ("txNoinputsSize", wordToJson options.noInputsSize),
      ("knapsackMinimumChange", .optional wordToJson options.minimumChange?),
      ("feeAsset", .optional AssetId.toJson options.feeAsset)]

/-- The fields of options. -/
def fields : List (Record.Field Options) :=
  [.optional "useBnb" Outline.readBool
      fun options useBranchAndBound => { options with useBranchAndBound },
    .optional "changeOutputSize" Outline.readWord
      fun options changeOutputSize => { options with changeOutputSize },
    .optional "changeSpendSize" Outline.readWord
      fun options changeSpendSize => { options with changeSpendSize },
    .optional "effectiveFeeBaserate" FeeRate.ofJson
      fun options effectiveRate => { options with effectiveRate },
    .optional "longTermFeeBaserate" FeeRate.ofJson
      fun options longTermRate => { options with longTermRate },
    .optional "discardFeeRate" FeeRate.ofJson
      fun options discardRate => { options with discardRate },
    .optional "txNoinputsSize" Outline.readWord
      fun options noInputsSize => { options with noInputsSize },
    .optional "knapsackMinimumChange" (Outline.readOptional Outline.readWord)
      fun options minimumChange? => { options with minimumChange? },
    .optional "feeAsset" (Outline.readOptional AssetId.ofJson)
      fun options feeAsset => { options with feeAsset }]

/-- Read options. -/
def ofJson : Outline → Except Fault Options :=
  Record.read fields {}

end CoinSelection.Options
