import CoinSelection.AssetId
import CoinSelection.Checked
import CoinSelection.Descriptor
import CoinSelection.OutPoint

/-!
# Unspent outputs

A `Utxo` is an output that can be spent.  Selection looks at its amount, at the
weight of the data that satisfies it, at the block that confirmed it and at its
asset; script and descriptor are only carried along.
-/

namespace CoinSelection

/-! ## Weights of inputs -/

/-- The weight of the fixed part of an input: the outpoint and a sequence
number, forty bytes that count four times. -/
def inputBaseWeight : Nat := (32 + 4 + 4) * 4

/-- The weight of the data that satisfies an output, from the greatest sizes of
its input script and of its witness. -/
def satisfactionWeightOfSizes (inputScriptSize witnessSize : Nat) : Outcome Nat := do
  let withLength ← Checked.add (compactSizeLength inputScriptSize) inputScriptSize
  let scriptWeight ← Checked.mul withLength 4
  Checked.add scriptWeight witnessSize

/-- The weight of an empty input script without a witness. -/
def emptySatisfactionWeight : UInt64 := 4

/-! ## Outputs -/

/-- An output that can be spent. -/
structure Utxo where
  outpoint : OutPoint
  amount : UInt64
  scriptPubkey : List UInt8 := []
  descriptor : Option String := none
  confirmationHeight : Option UInt32 := none
  satisfactionWeight : UInt64 := emptySatisfactionWeight
  asset : Option AssetId := none
  deriving DecidableEq

namespace Utxo

/-- Set the weight from the greatest sizes of input script and witness. -/
def withScriptSizes (utxo : Utxo) (inputScriptSize witnessSize : Nat) : Outcome Utxo := do
  let weight ← satisfactionWeightOfSizes inputScriptSize witnessSize
  pure { utxo with satisfactionWeight := UInt64.ofNat weight }

/-- Set the descriptor, and the weight that `weightOf?` finds for it. -/
def withDescriptor (utxo : Utxo) (text : String)
    (weightOf? : String → Option UInt64 := Descriptor.weight?) : Outcome Utxo :=
  match weightOf? text with
  | some weight => .ok { utxo with satisfactionWeight := weight, descriptor := some text }
  | none => refuse .descriptor

/-- The weight that spending the output adds to a transaction. -/
def inputWeight (utxo : Utxo) : Outcome Nat :=
  Checked.add inputBaseWeight utxo.satisfactionWeight.toNat

/-- The number of blocks from the one that confirmed the output up to the tip,
both counted.  It is zero for an output that the chain up to the tip does not
hold. -/
def confirmations (utxo : Utxo) (tipHeight : Nat) : Outcome Nat :=
  match utxo.confirmationHeight with
  | some height =>
      if height.toNat ≤ tipHeight then
        Checked.below Checked.heightBound .add (tipHeight - height.toNat + 1)
      else .ok 0
  | none => .ok 0

end Utxo

end CoinSelection
