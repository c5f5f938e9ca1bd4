import CoinSelection.AssetId
import CoinSelection.OutPoint
import Mathlib.Data.List.Basic
import Mathlib.Tactic.IntervalCases
import Mathlib.Tactic.Ring

/-!
# Reading identifiers back

Bytes, identifiers and outpoints are exchanged as text.  Here it is shown that
each of them is read back from the text that is written for it.
-/

namespace CoinSelection

/-! ## Hexadecimal digits -/

namespace Hex

theorem utf8_append (first second : List Char) :
    utf8 (first ++ second) = utf8 first ++ utf8 second :=
  List.flatMap_append

/-- The byte that encodes a digit. -/
def digitByte (value : Nat) : UInt8 :=
  UInt8.ofNat (Nat.digitChar value).toNat

/-- A digit is encoded in one byte, and that byte is read as its value. -/
theorem utf8_digitChar {value : Nat} (small : value < 16) :
    utf8 [Nat.digitChar value] = [digitByte value] ∧
      readDigit (digitByte value) = .ok value := by
  have table : ∀ value < 16, String.utf8EncodeChar (Nat.digitChar value) = [digitByte value] ∧
      digitValue? (digitByte value) = some value := by
    decide
  rcases table value small with ⟨encoded, read⟩
  constructor
  · simp [utf8, encoded]
  · simp [readDigit, read]

/-- The digits of a byte are encoded in two bytes. -/
theorem utf8_digitsOf (byte : UInt8) :
    utf8 (digitsOf byte) = [digitByte (byte.toNat / 16), digitByte (byte.toNat % 16)] := by
  have bound : byte.toNat < 256 := byte.toNat_lt
  have high := (utf8_digitChar (show byte.toNat / 16 < 16 by omega)).1
  have low := (utf8_digitChar (show byte.toNat % 16 < 16 by omega)).1
  have split : digitsOf byte =
      [Nat.digitChar (byte.toNat / 16)] ++ [Nat.digitChar (byte.toNat % 16)] := rfl
  rw [split, utf8_append, high, low]
  rfl

theorem bytesOf_encode_cons (byte : UInt8) (bytes : List UInt8) :
    bytesOf (encode (byte :: bytes)) =
      digitByte (byte.toNat / 16) :: digitByte (byte.toNat % 16) :: bytesOf (encode bytes) := by
  simp [bytesOf, encode, utf8_append, utf8_digitsOf]

theorem length_bytesOf_encode (bytes : List UInt8) :
    (bytesOf (encode bytes)).length = 2 * bytes.length := by
  induction bytes with
  | nil => rfl
  | cons byte bytes ih =>
      rw [bytesOf_encode_cons, List.length_cons, List.length_cons, ih, List.length_cons]
      ring

/-- Nothing but digits is written. -/
theorem exists_digitChar_of_mem {bytes : List UInt8} {char : Char}
    (member : char ∈ (encode bytes).toList) : ∃ value < 16, char = Nat.digitChar value := by
  rw [encode, String.toList_ofList, List.mem_flatMap] at member
  rcases member with ⟨byte, -, digit⟩
  have bound : byte.toNat < 256 := byte.toNat_lt
  rw [digitsOf, List.mem_pair] at digit
  rcases digit with high | low
  · exact ⟨byte.toNat / 16, by omega, high⟩
  · exact ⟨byte.toNat % 16, by omega, low⟩

theorem decodePairs_encode (bytes : List UInt8) :
    decodePairs (bytesOf (encode bytes)) = .ok bytes := by
  induction bytes with
  | nil => rfl
  | cons byte bytes ih =>
      have bound : byte.toNat < 256 := byte.toNat_lt
      have high := (utf8_digitChar (show byte.toNat / 16 < 16 by omega)).2
      have low := (utf8_digitChar (show byte.toNat % 16 < 16 by omega)).2
      rw [bytesOf_encode_cons, decodePairs, high, low, ih]
      simp only [bind, Except.bind, pure, Except.pure, Nat.div_add_mod, UInt8.ofNat_toNat]

/-- Bytes are read back from their digits. -/
@[simp]
theorem decode_encode (bytes : List UInt8) : decode (encode bytes) = .ok bytes := by
  have even : ¬ (bytesOf (encode bytes)).length % 2 = 1 := by
    rw [length_bytesOf_encode]
    omega
  simp only [decode, if_neg even, decodePairs_encode]

/-- So are the thirty-two bytes of an identifier. -/
@[simp]
theorem decode32_encode (bytes : Vector UInt8 32) :
    decode32 (encode bytes.toList) = .ok bytes := by
  simp only [decode32, decode_encode, bind, Except.bind, Vector.length_toList, dif_pos, pure,
    Except.pure]
  exact congrArg Except.ok (Vector.toArray_inj.mp (Array.toArray_toList))

end Hex

/-! ## Decimal digits -/

/-- Only the number zero is written with a zero in front. -/
theorem head?_toDigits_ne_zero {value : Nat} (positive : 0 < value) :
    (Nat.toDigits 10 value).head? ≠ some '0' := by
  induction value using Nat.strong_induction_on with
  | _ value ih =>
      rw [Nat.toDigits_eq_if (by decide)]
      by_cases single : value < 10
      · rw [if_pos single]
        interval_cases value <;> decide
      · rw [if_neg single, List.head?_append_of_ne_nil _ Nat.toDigits_ne_nil]
        exact ih (value / 10) (by omega) (by omega)

/-- No number has a zero in front of other digits. -/
theorem toDigits_no_leading_zero (value : Nat) :
    ¬ (1 < (Nat.toDigits 10 value).length ∧ (Nat.toDigits 10 value).head? = some '0') := by
  rintro ⟨long, zero⟩
  rcases Nat.eq_zero_or_pos value with rfl | positive
  · exact absurd long (by decide)
  · exact head?_toDigits_ne_zero positive zero

theorem toDigits_all_isDigit (value : Nat) : (Nat.toDigits 10 value).all Char.isDigit := by
  rw [List.all_eq_true]
  intro digit member
  exact Nat.isDigit_of_mem_toDigits (by decide) (by decide) member

/-- Every number is written with a digit in front. -/
theorem toDigits_eq_cons (value : Nat) :
    ∃ digit digits, Nat.toDigits 10 value = digit :: digits ∧ digit.isDigit = true := by
  rcases List.exists_cons_of_ne_nil (Nat.toDigits_ne_nil (n := value) (b := 10))
    with ⟨digit, digits, written⟩
  have decimal := toDigits_all_isDigit value
  rw [written, List.all_cons, Bool.and_eq_true] at decimal
  exact ⟨digit, digits, written, decimal.1⟩

/-- A decimal digit is encoded in one byte. -/
theorem utf8Size_of_isDigit {digit : Char} (decimal : digit.isDigit) : digit.utf8Size = 1 := by
  rw [Char.utf8Size_eq_one_iff]
  simp only [Char.isDigit, Bool.and_eq_true, decide_eq_true_eq] at decimal
  exact UInt32.le_trans decimal.2 (by decide)

theorem length_utf8_toDigits (value : Nat) :
    (Hex.utf8 (Nat.toDigits 10 value)).length = (Nat.toDigits 10 value).length := by
  have single : ∀ digit ∈ Nat.toDigits 10 value, (String.utf8EncodeChar digit).length = 1 := by
    intro digit member
    rw [String.length_utf8EncodeChar]
    exact utf8Size_of_isDigit (List.all_eq_true.mp (toDigits_all_isDigit value) digit member)
  rw [Hex.utf8, List.length_flatMap, List.map_congr_left single, List.map_const',
    List.sum_replicate_nat, mul_one]

/-! ## Identifiers -/

@[simp]
theorem AssetId.parse_display (asset : AssetId) : parse asset.display = .ok asset := by
  simp [parse, display, Except.map]

@[simp]
theorem Txid.parse_display (txid : Txid) : parse txid.display = .ok txid := by
  have reversed : txid.bytes.toList.reverse = txid.bytes.reverse.toList := by simp
  rw [parse, display, reversed, Hex.decode32_encode, Except.map, Vector.reverse_reverse]

namespace OutPoint

/-- A position is read back from its digits. -/
theorem parseVout_toDigits (vout : UInt32) :
    parseVout (Nat.toDigits 10 vout.toNat) = some vout := by
  have bound : vout.toNat < 1 <<< 32 := vout.toNat_lt
  simp only [parseVout, List.isEmpty_iff, Nat.toDigits_ne_nil, toDigits_all_isDigit,
    toDigits_no_leading_zero, not_true_eq_false, or_self, if_false,
    Nat.ofDigitChars_toDigits (show 1 < 10 by decide) (show 10 ≤ 10 by decide), bound, if_true,
    UInt32.ofNat_toNat]

/-- The text of an outpoint, in characters. -/
theorem toList_display (outpoint : OutPoint) :
    outpoint.display.toList =
      outpoint.txid.display.toList ++ ':' :: Nat.toDigits 10 outpoint.vout.toNat := by
  simp [display, toString]

theorem length_display_le (outpoint : OutPoint) :
    (Hex.bytesOf outpoint.display).length ≤ longestText := by
  have identifier : (Hex.utf8 outpoint.txid.display.toList).length = 64 := by
    have bytes := Hex.length_bytesOf_encode outpoint.txid.bytes.toList.reverse
    rwa [List.length_reverse, Vector.length_toList] at bytes
  have position : (Nat.toDigits 10 outpoint.vout.toNat).length ≤ 10 := by
    rw [Nat.length_toDigits_le_iff (by decide) (by decide)]
    exact lt_trans outpoint.vout.toNat_lt (by decide)
  have colon : (Hex.utf8 [':']).length = 1 := rfl
  rw [Hex.bytesOf, toList_display, ← List.singleton_append, Hex.utf8_append, Hex.utf8_append,
    List.length_append, List.length_append, identifier, colon, length_utf8_toDigits, longestText]
  omega

theorem colon_not_mem_txid (txid : Txid) : ':' ∉ txid.display.toList := by
  intro member
  rcases Hex.exists_digitChar_of_mem member with ⟨value, small, digit⟩
  have others : ∀ value < 16, ':' ≠ Nat.digitChar value := by decide
  exact others value small digit

/-- An outpoint is read back from its text. -/
@[simp]
theorem parse_display (outpoint : OutPoint) : parse outpoint.display = some outpoint := by
  have notColon : ∀ char ∈ outpoint.txid.display.toList, decide (char ≠ ':') = true := by
    intro char member
    exact decide_eq_true fun same => colon_not_mem_txid outpoint.txid (same ▸ member)
  have identifier : outpoint.display.toList.takeWhile (· ≠ ':') = outpoint.txid.display.toList := by
    rw [toList_display, List.takeWhile_append_of_pos notColon,
      List.takeWhile_cons_of_neg (by simp), List.append_nil]
  have position : outpoint.display.toList.dropWhile (· ≠ ':') =
      ':' :: Nat.toDigits 10 outpoint.vout.toNat := by
    rw [toList_display, List.dropWhile_append_of_pos notColon,
      List.dropWhile_cons_of_neg (by simp)]
  simp only [parse, if_neg (not_lt.mpr outpoint.length_display_le), identifier, position,
    String.ofList_toList, Txid.parse_display, Except.toOption, parseVout_toDigits]

end OutPoint

end CoinSelection
