import CoinSelection.Exchange.Scalar
import CoinSelection.Json.Record
import CoinSelection.Utxo

/-!
# Entries of a request

An entry describes an output that may be spent.  The weight of the data that
satisfies it follows from its descriptor, or else from the sizes it gives.  Any
function from texts to weights can stand for the reader of descriptors.
-/

namespace CoinSelection

open Json

/-- A description of an output that may be spent. -/
structure Entry where
  txid : Txid
  vout : UInt32
  amount : UInt64
  descriptor : Option String := none
  maxInputScriptSize : Option UInt64 := none
  maxWitnessSize : Option UInt64 := none
  confirmationHeight : Option UInt32 := none
  asset : Option AssetId := none
  deriving DecidableEq

namespace Entry

/-! ## The output of an entry -/

/-- The outpoint of the output. -/
def outpoint (entry : Entry) : OutPoint :=
  ⟨entry.txid, entry.vout⟩

/-- A size, zero if it is not given. -/
def sizeOf (size : Option UInt64) : Nat :=
  (size.map UInt64.toNat).getD 0

/-- The output that an entry describes. -/
def toUtxo (entry : Entry) (weightOf? : String → Option UInt64 := Descriptor.weight?) :
    Outcome Utxo := do
  let bare : Utxo := { outpoint := entry.outpoint, amount := entry.amount }
  let weighed ← match entry.descriptor with
    | some descriptor => bare.withDescriptor descriptor weightOf?
    | none =>
        bare.withScriptSizes (sizeOf entry.maxInputScriptSize) (sizeOf entry.maxWitnessSize)
  pure { weighed with confirmationHeight := entry.confirmationHeight, asset := entry.asset }

/-! ## Entries as records -/

/-- A field that is written only if it has a value. -/
def given {α : Type} (name : String) (write : α → Value) (value : Option α) :
    List (String × Value) :=
  value.toList.map fun value => (name, write value)

/-- Write an entry. -/
def toJson (entry : Entry) : Value :=
  .object <|
    [("txid", entry.txid.toJson),
      ("vout", halfWordToJson entry.vout),
      ("amount", wordToJson entry.amount)] ++
      given "descriptor" .text entry.descriptor ++
      given "maxUnlockingScriptSize" wordToJson entry.maxInputScriptSize ++
      given "maxWitnessSize" wordToJson entry.maxWitnessSize ++
      given "confirmationHeight" halfWordToJson entry.confirmationHeight ++
      given "asset" AssetId.toJson entry.asset

/-- The fields of an entry. -/
def fields : List (Record.Field Entry) :=
  [.required "txid" Txid.ofJson
      fun entry txid => { entry with txid },
    .required "vout" Outline.readHalfWord
      fun entry vout => { entry with vout },
    .required "amount" Outline.readWord
      fun entry amount => { entry with amount },
    .optional "descriptor" (Outline.readOptional Outline.readText)
      fun entry descriptor => { entry with descriptor },
    .optional "maxUnlockingScriptSize" (Outline.readOptional Outline.readWord)
      fun entry maxInputScriptSize => { entry with maxInputScriptSize },
    .optional "maxWitnessSize" (Outline.readOptional Outline.readWord)
      fun entry maxWitnessSize => { entry with maxWitnessSize },
    .optional "confirmationHeight" (Outline.readOptional Outline.readHalfWord)
      fun entry confirmationHeight => { entry with confirmationHeight },
    .optional "asset" (Outline.readOptional AssetId.ofJson)
      fun entry asset => { entry with asset }]

/-- An entry before its fields are read. -/
def blank : Entry :=
  { txid := ⟨Vector.replicate 32 0⟩, vout := 0, amount := 0 }

/-- Read an entry. -/
def ofJson : Outline → Except Fault Entry :=
  Record.read fields blank

end Entry

end CoinSelection
