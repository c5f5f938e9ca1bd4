import CoinSelection.AssetId
import CoinSelection.FeeRate
import CoinSelection.Json.Outline
import CoinSelection.Json.Value
import CoinSelection.OutPoint

/-!
# Values without parts

Identifiers, outpoints and scripts are exchanged as the texts that stand for
them, and fee rates as numbers of satoshi per virtual byte.
-/

namespace CoinSelection

open Json

/-! ## Assets -/

/-- Write an asset. -/
def AssetId.toJson (asset : AssetId) : Value :=
  .text asset.display

/-- Read an asset. -/
def AssetId.ofJson (outline : Outline) : Except Fault AssetId :=
  outline.readParsed fun text => (AssetId.parse text).toOption

/-! ## Transactions and outpoints -/

/-- Write the identifier of a transaction. -/
def Txid.toJson (txid : Txid) : Value :=
  .text txid.display

/-- Read the identifier of a transaction. -/
def Txid.ofJson (outline : Outline) : Except Fault Txid :=
  outline.readParsed fun text => (Txid.parse text).toOption

/-- Write an outpoint. -/
def OutPoint.toJson (outpoint : OutPoint) : Value :=
  .text outpoint.display

/-- Read an outpoint. -/
def OutPoint.ofJson (outline : Outline) : Except Fault OutPoint :=
  outline.readParsed OutPoint.parse

/-! ## Scripts -/

/-- Write a script. -/
def scriptToJson (script : List UInt8) : Value :=
  .text (Hex.encode script)

/-- Read a script. -/
def scriptOfJson (outline : Outline) : Except Fault (List UInt8) :=
  outline.readParsed fun text => (Hex.decode text).toOption

/-! ## Rates -/

/-- Write a fee rate. -/
def FeeRate.toJson (rate : FeeRate) : Value :=
  .single rate.satPerVbyte

/-- Read a fee rate. -/
def FeeRate.ofJson (outline : Outline) : Except Fault FeeRate :=
  outline.readSingle.map FeeRate.mk

/-! ## Words -/

/-- Write a number of thirty-two bits. -/
def halfWordToJson (value : UInt32) : Value :=
  .natural value.toNat

/-- Write a number of sixty-four bits. -/
def wordToJson (value : UInt64) : Value :=
  .natural value.toNat

end CoinSelection
