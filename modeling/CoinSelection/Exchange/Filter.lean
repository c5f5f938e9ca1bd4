import CoinSelection.Exchange.Scalar
import CoinSelection.Filter
import CoinSelection.Json.Record

/-!
# Filters as records

All fields of a filter are written, and none has to be given.
-/

namespace CoinSelection.Filter

open Json

/-- Write a filter. -/
def toJson (filter : Filter) : Value :=
  .object
    [("minConfirmations", halfWordToJson filter.minConfirmations),
      ("tipHeight", .optional halfWordToJson filter.tipHeight),
      ("targetAsset", .optional AssetId.toJson filter.targetAsset)]

/-- The fields of a filter. -/
def fields : List (Record.Field Filter) :=
  [.optional "minConfirmations" Outline.readHalfWord
      fun filter minConfirmations => { filter with minConfirmations },
    .optional "tipHeight" (Outline.readOptional Outline.readHalfWord)
      fun filter tipHeight => { filter with tipHeight },
    .optional "targetAsset" (Outline.readOptional AssetId.ofJson)
      fun filter targetAsset => { filter with targetAsset }]

/-- Read a filter. -/
def ofJson : Outline → Except Fault Filter :=
  Record.read fields {}

end CoinSelection.Filter
