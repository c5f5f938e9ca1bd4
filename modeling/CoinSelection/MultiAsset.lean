import CoinSelection.Select

/-!
# Selecting outputs of several assets

Every asset is paid on its own, in the order of the assets.  Only the pass for
the asset that fees are paid in prices its inputs and the transaction.
-/

namespace CoinSelection

/-! ## Amounts by asset -/

/-- A value for each of some assets, in the order of the assets. -/
abbrev ByAsset : Type :=
  List (AssetId × Nat)

namespace ByAsset

/-- Put a value for an asset, in place of an earlier one. -/
def insert (asset : AssetId) (value : Nat) : ByAsset → ByAsset
  | [] => [(asset, value)]
  | (first, firstValue) :: rest =>
      match compare asset first with
      | .lt => (asset, value) :: (first, firstValue) :: rest
      | .eq => (asset, value) :: rest
      | .gt => (first, firstValue) :: insert asset value rest

/-- Values put one after another. -/
def ofList (entries : List (AssetId × Nat)) : ByAsset :=
  entries.foldl (fun values entry => values.insert entry.1 entry.2) []

/-- The value for an asset. -/
def get? (values : ByAsset) (asset : AssetId) : Option Nat :=
  List.lookup asset values

end ByAsset

/-! ## Selections of several assets -/

/-- The outputs to spend for several assets, and their totals. -/
structure AssetSelection where
  selected : List Utxo := []
  selectedValue : ByAsset := []
  excessValue : ByAsset := []
  inputFees : Nat := 0
  deriving DecidableEq

/-- The totals of the passes so far, and the outpoints they chose. -/
structure AssetTotals where
  selectedValue : ByAsset := []
  excessValue : ByAsset := []
  inputFees : Nat := 0
  chosen : List OutPoint := []

/-- Add the selection for one asset. -/
def AssetTotals.add (totals : AssetTotals) (asset : AssetId) (selection : Selection) :
    Outcome AssetTotals := do
  let inputFees ← Checked.add totals.inputFees selection.inputFees
  pure
    { selectedValue := totals.selectedValue.insert asset selection.selectedValue
      excessValue := totals.excessValue.insert asset selection.excessValue
      inputFees
      chosen := totals.chosen ++ selection.selected.map Utxo.outpoint }

/-- One pass for every asset. -/
def selectEach (source : RandomSource) (pool : List Utxo) (filter : Filter) (options : Options) :
    ByAsset → AssetTotals → Draw AssetTotals
  | [], totals => pure totals
  | (asset, target) :: rest, totals => do
      let selection ←
        select source target pool { filter with targetAsset := some asset } options
      let next ← Draw.ofOutcome (totals.add asset selection)
      selectEach source pool filter options rest next

/-- Select outputs of a pool to pay a target for each of some assets. -/
def selectAssets (source : RandomSource) (targets : ByAsset) (pool : List Utxo) (filter : Filter)
    (options : Options) : Draw AssetSelection := do
  let totals ← selectEach source pool filter options targets {}
  pure
    { selected := pool.filter fun utxo => totals.chosen.contains utxo.outpoint
      selectedValue := totals.selectedValue
      excessValue := totals.excessValue
      inputFees := totals.inputFees }

end CoinSelection
