import CoinSelection.Hex

/-!
# Outpoints

A transaction output is found by the identifier of its transaction and its
position there.  A transaction identifier is written with its bytes in reverse,
so two of them are compared from the last written byte to the first; outpoints
of one transaction are ordered by position.
-/

namespace CoinSelection

/-! ## Transaction identifiers -/

/-- The identifier of a transaction.  The bytes are in the order in which they
are compared, the reverse of the written one. -/
structure Txid where
  bytes : Vector UInt8 32
  deriving DecidableEq

namespace Txid

/-- The text of a transaction identifier. -/
def display (txid : Txid) : String :=
  Hex.encode txid.bytes.toList.reverse

/-- Read a transaction identifier from its text. -/
def parse (text : String) : Except Hex.Defect Txid :=
  (Hex.decode32 text).map fun written => ⟨written.reverse⟩

instance : Ord Txid :=
  ⟨compareOn fun txid => txid.bytes.toList⟩

theorem compare_def (first second : Txid) :
    compare first second = compare first.bytes.toList second.bytes.toList :=
  rfl

/-- Identifiers that compare equal are equal. -/
theorem compare_eq_eq_iff {first second : Txid} :
    compare first second = .eq ↔ first = second := by
  cases first
  cases second
  rw [compare_def, Std.LawfulEqOrd.compare_eq_iff_eq, Vector.toList_inj, Txid.mk.injEq]

end Txid

/-! ## Outpoints -/

/-- A reference to a transaction output. -/
structure OutPoint where
  txid : Txid
  vout : UInt32
  deriving DecidableEq

namespace OutPoint

/-- The text of an outpoint: the transaction, a colon, the position. -/
def display (outpoint : OutPoint) : String :=
  outpoint.txid.display ++ ":" ++ toString outpoint.vout.toNat

/-- Read a position: decimal digits without a leading zero, at most
`2 ^ 32 - 1`. -/
def parseVout (digits : List Char) : Option UInt32 :=
  if digits.isEmpty ∨ ¬ digits.all Char.isDigit then none
  else if 1 < digits.length ∧ digits.head? = some '0' then none
  else
    let value := Nat.ofDigitChars 10 digits 0
    if value < 1 <<< 32 then some (UInt32.ofNat value) else none

/-- The longest text of an outpoint in bytes: sixty-four digits, a colon and
ten digits. -/
def longestText : Nat := 75

/-- Read an outpoint from its text. -/
def parse (text : String) : Option OutPoint :=
  if longestText < (Hex.bytesOf text).length then none
  else
    let written := text.toList.takeWhile (· ≠ ':')
    match text.toList.dropWhile (· ≠ ':') with
    | [] => none
    | _ :: position =>
        match (Txid.parse (String.ofList written)).toOption, parseVout position with
        | some txid, some vout => some ⟨txid, vout⟩
        | _, _ => none

/-- Outpoints are ordered by transaction, then by position. -/
instance : Ord OutPoint :=
  ⟨compareLex (compareOn OutPoint.txid) (compareOn OutPoint.vout)⟩

theorem compare_def (first second : OutPoint) :
    compare first second =
      (compare first.txid second.txid).then (compare first.vout second.vout) :=
  rfl

/-- Outpoints that compare equal are equal. -/
theorem compare_eq_eq_iff {first second : OutPoint} :
    compare first second = .eq ↔ first = second := by
  cases first
  cases second
  rw [compare_def, Ordering.then_eq_eq, Txid.compare_eq_eq_iff,
    Std.LawfulEqOrd.compare_eq_iff_eq, OutPoint.mk.injEq]

end OutPoint

end CoinSelection
