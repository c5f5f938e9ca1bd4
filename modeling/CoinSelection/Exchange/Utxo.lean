import CoinSelection.Exchange.Scalar
import CoinSelection.Json.Record
import CoinSelection.Utxo

/-!
# Unspent outputs as records

All fields of an output are written.  Only outpoint and amount have to be given.
-/

namespace CoinSelection.Utxo

open Json

/-- Write an output. -/
def toJson (utxo : Utxo) : Value :=
  .object
    [("outpoint", utxo.outpoint.toJson),
      ("amount", wordToJson utxo.amount),
      ("script_pubkey", scriptToJson utxo.scriptPubkey),
      ("descriptor", .optional .text utxo.descriptor),
      ("confirmation_height", .optional halfWordToJson utxo.confirmationHeight),
      ("satisfaction_weight", wordToJson utxo.satisfactionWeight),
      ("asset", .optional AssetId.toJson utxo.asset)]

/-- The fields of an output. -/
def fields : List (Record.Field Utxo) :=
  [.required "outpoint" OutPoint.ofJson
      fun utxo outpoint => { utxo with outpoint },
    .required "amount" Outline.readWord
      fun utxo amount => { utxo with amount },
    .optional "script_pubkey" scriptOfJson
      fun utxo scriptPubkey => { utxo with scriptPubkey },
    .optional "descriptor" (Outline.readOptional Outline.readText)
      fun utxo descriptor => { utxo with descriptor },
    .optional "confirmation_height" (Outline.readOptional Outline.readHalfWord)
      fun utxo confirmationHeight => { utxo with confirmationHeight },
    .optional "satisfaction_weight" Outline.readWord
      fun utxo satisfactionWeight => { utxo with satisfactionWeight },
    .optional "asset" (Outline.readOptional AssetId.ofJson)
      fun utxo asset => { utxo with asset }]

/-- An output before its fields are read. -/
def blank : Utxo :=
  { outpoint := ⟨⟨Vector.replicate 32 0⟩, 0⟩, amount := 0 }

/-- Read an output. -/
def ofJson : Outline → Except Fault Utxo :=
  Record.read fields blank

end CoinSelection.Utxo
