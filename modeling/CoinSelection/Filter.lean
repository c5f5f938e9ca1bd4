import CoinSelection.Utxo

/-!
# Filters

A filter restricts the outputs that may be spent: to those of one asset, and to
those confirmed often enough.  Without a known tip of the chain any confirmed
output is confirmed often enough.
-/

namespace CoinSelection

/-- Restrictions on the outputs that may be spent. -/
structure Filter where
  minConfirmations : UInt32 := 0
  tipHeight : Option UInt32 := none
  targetAsset : Option AssetId := none
  deriving DecidableEq

namespace Filter

/-- Whether the asset of an output is the one asked for. -/
def acceptsAsset (filter : Filter) (utxo : Utxo) : Bool :=
  filter.targetAsset.isNone || utxo.asset == filter.targetAsset

/-- Whether an output is confirmed often enough. -/
def acceptsConfirmations (filter : Filter) (utxo : Utxo) : Outcome Bool :=
  if filter.minConfirmations = 0 then .ok true
  else
    match filter.tipHeight with
    | some tipHeight => do
        let confirmations ← utxo.confirmations tipHeight.toNat
        pure (filter.minConfirmations.toNat ≤ confirmations)
    | none => .ok utxo.confirmationHeight.isSome

/-- Whether an output may be spent. -/
def accepts (filter : Filter) (utxo : Utxo) : Outcome Bool :=
  if filter.acceptsAsset utxo then filter.acceptsConfirmations utxo else .ok false

/-- The outputs that may be spent, in their order. -/
def accepted (filter : Filter) : List Utxo → Outcome (List Utxo)
  | [] => .ok []
  | utxo :: rest => do
      let accepts ← filter.accepts utxo
      let others ← filter.accepted rest
      pure (if accepts then utxo :: others else others)

end Filter

end CoinSelection
