/-!
# Hexadecimal text

Identifiers and scripts are exchanged as base-sixteen text.  `encode` writes
two lower-case digits for every byte; `decode` accepts both cases and reports
the first thing that is wrong with a text, in a fixed order: an odd number of
bytes, then the first byte that is not a digit.  A caller that expects a fixed
number of digits reports a wrong length last.
-/

namespace CoinSelection.Hex

/-- What can be wrong with a hexadecimal text. -/
inductive Defect
  | oddLength (length : Nat)
  | invalidByte (byte : UInt8)
  | wrongLength (length expected : Nat)
  deriving DecidableEq, Repr

/-- The wording of a defect. -/
def Defect.message : Defect → String
  | .oddLength length => s!"odd hex string length {length}"
  | .invalidByte byte => s!"invalid hex character {byte.toNat}"
  | .wrongLength length expected => s!"bad hex string length {length} (expected {expected})"

/-! ## Bytes of a text -/

/-- The UTF-8 encoding of a list of characters. -/
def utf8 (chars : List Char) : List UInt8 :=
  chars.flatMap String.utf8EncodeChar

/-- The bytes of a text.  Lengths and defects are counted on them, not on
characters. -/
def bytesOf (text : String) : List UInt8 :=
  utf8 text.toList

/-! ## Digits -/

/-- The value of a digit, in either case. -/
def digitValue? (byte : UInt8) : Option Nat :=
  let code := byte.toNat
  if 48 ≤ code ∧ code ≤ 57 then some (code - 48)
  else if 97 ≤ code ∧ code ≤ 102 then some (code - 87)
  else if 65 ≤ code ∧ code ≤ 70 then some (code - 55)
  else none

/-- Read one digit or report it. -/
def readDigit (byte : UInt8) : Except Defect Nat :=
  match digitValue? byte with
  | some value => .ok value
  | none => .error (.invalidByte byte)

/-- The two digits of a byte, the high half first. -/
def digitsOf (byte : UInt8) : List Char :=
  [Nat.digitChar (byte.toNat / 16), Nat.digitChar (byte.toNat % 16)]

/-! ## Whole texts -/

/-- Write bytes as lower-case digits. -/
def encode (bytes : List UInt8) : String :=
  String.ofList (bytes.flatMap digitsOf)

/-- Read digits two at a time, from the left.  A single byte left over is
dropped: `decode` refuses an odd number of them first. -/
def decodePairs : List UInt8 → Except Defect (List UInt8)
  | high :: low :: rest => do
      let highValue ← readDigit high
      let lowValue ← readDigit low
      let bytes ← decodePairs rest
      pure (UInt8.ofNat (16 * highValue + lowValue) :: bytes)
  | _ => .ok []

/-- Read the bytes that a text of hexadecimal digits stands for. -/
def decode (text : String) : Except Defect (List UInt8) :=
  let digits := bytesOf text
  if digits.length % 2 = 1 then .error (.oddLength digits.length)
  else decodePairs digits

/-- Read exactly thirty-two bytes, the size of every identifier. -/
def decode32 (text : String) : Except Defect (Vector UInt8 32) := do
  let bytes ← decode text
  if exact : bytes.length = 32 then
    pure ⟨bytes.toArray, by simpa using exact⟩
  else
    .error (.wrongLength (bytesOf text).length 64)

/-! ## Elementary laws -/

theorem digitsOf_length (byte : UInt8) : (digitsOf byte).length = 2 :=
  rfl

/-- Every byte takes two characters. -/
theorem encode_length (bytes : List UInt8) :
    (encode bytes).toList.length = 2 * bytes.length := by
  simp only [encode, String.toList_ofList]
  induction bytes with
  | nil => rfl
  | cons byte bytes ih =>
      simp only [List.flatMap_cons, List.length_append, List.length_cons, ih, digitsOf_length]
      omega

end CoinSelection.Hex
