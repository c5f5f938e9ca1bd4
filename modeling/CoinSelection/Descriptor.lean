import CoinSelection.Descriptor.Checksum
import CoinSelection.Descriptor.Script

/-!
# Output descriptors

A descriptor says what it takes to spend an output.  What matters here is the
greatest weight of the data that satisfies it: the bytes of the input script,
with their length, count four times and the bytes of the witness once.
-/

namespace CoinSelection

/-! ## Forms -/

/-- A descriptor. -/
inductive Descriptor
  /-- A script in the output. -/
  | bare (script : Descriptor.Script)
  /-- The hash of a key. -/
  | keyHash (form : Descriptor.KeyForm)
  /-- The hash of a key, which the witness shows. -/
  | witnessKeyHash
  /-- The same behind the hash of a script. -/
  | nestedWitnessKeyHash
  /-- The hash of a script. -/
  | scriptHash (script : Descriptor.Script)
  /-- The hash of a script, which the witness shows. -/
  | witnessScriptHash (script : Descriptor.Script)
  /-- The same behind the hash of a script. -/
  | nestedWitnessScriptHash (script : Descriptor.Script)
  /-- A key that signs on its own, without scripts beside it. -/
  | taproot
  deriving DecidableEq, Repr

/-- The bytes of a number that counts bytes. -/
def compactSizeLength (count : Nat) : Nat :=
  if count < 0xFD then 1
  else if count ≤ 0xFFFF then 3
  else if count ≤ 0xFFFFFFFF then 5
  else 9

namespace Descriptor

/-! ## Weights -/

/-- The bytes that put a script of the given size on the stack. -/
def pushOverhead (size : Nat) : Nat :=
  if size < 76 then 1 else if size < 256 then 2 else 3

/-- The weight of an input script of the given size. -/
def inputScriptWeight (size : Nat) : Nat :=
  4 * (compactSizeLength size + size)

/-- The weight of a witness that satisfies a script and repeats it. -/
def witnessScriptWeight (script : Script) : Nat :=
  4 + 1 + compactSizeLength script.size + script.size + script.satisfactionSize

/-- The greatest weight of the data that satisfies a descriptor. -/
def satisfactionWeight : Descriptor → Nat
  | .bare script => inputScriptWeight script.satisfactionSize
  | .keyHash form => inputScriptWeight (signatureSize + form.pushSize)
  | .witnessKeyHash => 4 + 1 + signatureSize + KeyForm.pushSize .compressed
  | .nestedWitnessKeyHash => 4 * 24 + 1 + signatureSize + KeyForm.pushSize .compressed
  | .scriptHash script =>
      inputScriptWeight (pushOverhead script.size + script.size + script.satisfactionSize)
  | .witnessScriptHash script => witnessScriptWeight script
  | .nestedWitnessScriptHash script => 4 * 35 + witnessScriptWeight script
  | .taproot => 4 + 1 + 1 + 65

/-! ## Reading -/

/-- Whether a term is a key that may stand behind a hash in the witness: any but
an uncompressed one. -/
def isWitnessKey (term : Term) : Bool :=
  match readKey term with
  | some form => form ≠ .uncompressed
  | none => false

/-- Read what stands behind the hash of a script. -/
def readScriptHash : Term → Option Descriptor
  | .apply "wpkh" [key] => if isWitnessKey key then some .nestedWitnessKeyHash else none
  | .apply "wsh" [script] => (readScript .witness script).map .nestedWitnessScriptHash
  | script => (readScript .inputScript script).map .scriptHash

/-- Read a term as a descriptor. -/
def ofTerm? : Term → Option Descriptor
  | .apply "pkh" [key] => (readKey key).map .keyHash
  | .apply "wpkh" [key] => if isWitnessKey key then some .witnessKeyHash else none
  | .apply "sh" [inner] => readScriptHash inner
  | .apply "wsh" [script] => (readScript .witness script).map .witnessScriptHash
  | .apply "tr" [key] => (readKey key).map fun _ => .taproot
  | script => (readScript .output script).map .bare

/-- Read a descriptor from its text. -/
def parse? (text : String) : Option Descriptor := do
  let body ← verified? text.toList
  let term ← Term.parse? body
  ofTerm? term

/-- The weight of the data that satisfies a descriptor, where a text is one. -/
def weight? (text : String) : Option UInt64 :=
  (parse? text).map fun descriptor => UInt64.ofNat descriptor.satisfactionWeight

end Descriptor

end CoinSelection
