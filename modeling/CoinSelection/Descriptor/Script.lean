import CoinSelection.Descriptor.Key
import CoinSelection.Descriptor.Term

/-!
# Scripts

A script asks for signatures of keys.  The place where it stands decides which
keys it may use and how large it may be; its size and the size of the data that
satisfies it decide what spending costs.
-/

namespace CoinSelection.Descriptor

/-! ## Scripts and places -/

/-- A script that asks for signatures. -/
inductive Script
  /-- One signature of a key. -/
  | key (form : KeyForm)
  /-- A key with a given hash, and its signature. -/
  | keyHash
  /-- Signatures of `required` of the keys, in the order of the keys. -/
  | multi (required : Nat) (forms : List KeyForm)
  deriving DecidableEq, Repr

/-- Where a script stands. -/
inductive Place
  /-- In the output itself. -/
  | output
  /-- In the input, as the script whose hash is in the output. -/
  | inputScript
  /-- In the witness, as the script whose hash is in the output. -/
  | witness
  deriving DecidableEq, Repr

/-- The keys that a script spells out. -/
def Script.forms : Script → List KeyForm
  | .key form => [form]
  | .keyHash => []
  | .multi _ forms => forms

/-! ## Sizes -/

/-- A signature of greatest size, with its length. -/
def signatureSize : Nat := 73

/-- A key, with its length. -/
def KeyForm.pushSize : KeyForm → Nat
  | .uncompressed => 66
  | _ => 34

/-- The bytes of a number in a script. -/
def numberSize (number : Nat) : Nat :=
  if number ≤ 16 then 1 else 2

/-- The bytes of a script in which a key of each form takes `keySize` bytes. -/
def Script.sizeWith (keySize : KeyForm → Nat) : Script → Nat
  | .key form => keySize form + 1
  | .keyHash => 25
  | .multi required forms =>
      numberSize required + (forms.map keySize).foldr (· + ·) 0 + numberSize forms.length + 1

/-- The bytes of a script. -/
def Script.size (script : Script) : Nat :=
  script.sizeWith KeyForm.pushSize

/-- The bytes that a script would have if all of its keys were compressed.
Limits on scripts are stated for this size. -/
def Script.nominalSize (script : Script) : Nat :=
  script.sizeWith fun _ => KeyForm.pushSize .compressed

/-- The bytes of the data that satisfies a script.  A key behind a hash counts
as compressed. -/
def Script.satisfactionSize : Script → Nat
  | .key _ => signatureSize
  | .keyHash => signatureSize + KeyForm.pushSize .compressed
  | .multi required _ => 1 + signatureSize * required

/-! ## Validity -/

/-- Whether a script may spell out a key.  A first coordinate alone is no key of
a script, and the witness holds compressed keys only. -/
def Place.admits : Place → KeyForm → Bool
  | _, .xOnly => false
  | .witness, .uncompressed => false
  | _, _ => true

/-- Whether a script is small enough: an output lists at most three keys, the
script behind a hash is one element of at most 520 bytes on the stack of an
input, and a witness lists at most twenty keys. -/
def Place.fits : Place → Script → Bool
  | .output, script => script.forms.length ≤ 3
  | .inputScript, script => script.nominalSize ≤ 520
  | .witness, script => script.forms.length ≤ 20

/-- Whether a script may stand in a place. -/
def Place.accepts (place : Place) (script : Script) : Bool :=
  script.forms.all place.admits && place.fits script

/-! ## Reading -/

/-- A term that is a key. -/
def readKey : Term → Option KeyForm
  | .apply name [] => KeyForm.parse? name
  | _ => none

/-- A term that is a number of signatures: decimal digits without a leading
zero. -/
def readRequired : Term → Option Nat
  | .apply name [] =>
      let digits := name.toList
      if digits.isEmpty ∨ digits.head? = some '0' ∨ ¬ digits.all Char.isDigit then none
      else some (Nat.ofDigitChars 10 digits 0)
  | _ => none

/-- A number of signatures, and at least as many keys. -/
def readMulti (number : Term) (keys : List Term) : Option Script := do
  let required ← readRequired number
  let forms ← keys.mapM readKey
  if required ≤ forms.length then some (.multi required forms) else none

/-- Read a script without regard to its keys and its size.  Keys that are to be
sorted may not stand in the output itself; their order leaves the size as it
is. -/
def readScriptForm (place : Place) : Term → Option Script
  | .apply "pk" [key] => (readKey key).map .key
  | .apply "pkh" [key] => (readKey key).map fun _ => .keyHash
  | .apply "multi" (number :: keys) => readMulti number keys
  | .apply "sortedmulti" (number :: keys) =>
      if place = .output then none else readMulti number keys
  | _ => none

/-- Read a script that stands in a place. -/
def readScript (place : Place) (term : Term) : Option Script :=
  (readScriptForm place term).filter place.accepts

end CoinSelection.Descriptor
