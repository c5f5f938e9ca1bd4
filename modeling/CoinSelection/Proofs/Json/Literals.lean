import CoinSelection.Json.Reader
import CoinSelection.Json.Value
import CoinSelection.Proofs.Identifiers

/-!
# Reading literals and numerals back

A text is read back from its literal, whatever characters are in it, and a
natural number from its digits.  Neither takes anything from what follows: a
literal ends with its quote, and a numeral at a character that separates.
-/

namespace CoinSelection.Json

/-! ## Literals -/

namespace Quoted

/-- The piece that is read for a written character: the sixteen bits of a
numeric escape, or the character itself. -/
def pieceOf (char : Char) : Piece :=
  if escapeLetter? char = none ∧ char < ' ' then .unit char.toNat else .char char

/-- The literal that is read for a written text. -/
def ofText (text : List Char) : Quoted :=
  ⟨text.map pieceOf, none⟩

/-- The digits of a numeric escape stand for its sixteen bits. -/
theorem unitOf?_digitsOf {code : Nat} (small : code < 256) :
    unitOf? ('0' :: '0' :: Hex.digitsOf (UInt8.ofNat code)) = some code := by
  have digits : String.ofList ('0' :: '0' :: Hex.digitsOf (UInt8.ofNat code)) =
      Hex.encode [0, UInt8.ofNat code] := rfl
  rw [unitOf?, digits, Hex.decode_encode]
  simp [Nat.mod_eq_of_lt small]

/-- A short escape is read as the character that it stands for. -/
theorem read_shortEscape {char letter : Char} (escaped : escapeLetter? char = some letter)
    (rest : List Char) : read ('\\' :: letter :: rest) = push (.char char) (read rest) := by
  have table : ∀ entry ∈ shortEscapes,
      read ('\\' :: entry.2 :: rest) = push (.char entry.1) (read rest) := by
    simp only [shortEscapes, List.forall_mem_cons]
    exact ⟨rfl, rfl, rfl, rfl, rfl, rfl, rfl, List.forall_mem_nil _⟩
  rcases List.lookup_eq_some_iff.mp escaped with ⟨before, after, entries, -⟩
  exact table (char, letter) (by rw [entries]; simp)

/-- A character that is not escaped stands for itself. -/
theorem read_plain {char : Char} (plain : escapeLetter? char = none) (visible : ¬ char < ' ')
    (rest : List Char) : read (char :: rest) = push (.char char) (read rest) := by
  have notQuote : char ≠ '"' := by
    rintro rfl
    exact absurd plain (by decide)
  have notSolidus : char ≠ '\\' := by
    rintro rfl
    exact absurd plain (by decide)
  rw [read.eq_def]
  split <;> simp_all

/-- A numeric escape is read as its sixteen bits. -/
theorem read_numericEscape {char : Char} (control : char < ' ') (rest : List Char) :
    read ('\\' :: 'u' :: '0' :: '0' :: Hex.digitsOf (UInt8.ofNat char.toNat) ++ rest) =
      push (.unit char.toNat) (read rest) := by
  have small : char.toNat < 256 := lt_trans (show char.toNat < 32 from control) (by decide)
  have code := unitOf?_digitsOf small
  simp only [Hex.digitsOf, List.cons_append, List.nil_append] at code ⊢
  rw [read, code]

/-- A written character is read as one piece, and the rest is left. -/
theorem read_writeChar (char : Char) (rest : List Char) :
    read (writeChar char ++ rest) = push (pieceOf char) (read rest) := by
  cases escaped : escapeLetter? char with
  | some letter =>
      simpa [writeChar, pieceOf, escaped] using read_shortEscape escaped rest
  | none =>
      by_cases control : char < ' '
      · simpa only [writeChar, pieceOf, escaped, control, true_and, if_true]
          using read_numericEscape control rest
      · simpa only [writeChar, pieceOf, escaped, control, true_and, if_false, List.singleton_append]
          using read_plain escaped control rest

/-- A written text is read up to its closing quote. -/
theorem read_flatMap_writeChar (text rest : List Char) :
    read (text.flatMap writeChar ++ '"' :: rest) = (ofText text, some rest) := by
  induction text with
  | nil => rfl
  | cons char text ih =>
      rw [List.flatMap_cons, List.append_assoc, read_writeChar, ih]
      rfl

/-- The pieces of a written text are put together to the text. -/
theorem join_map_pieceOf (text : List Char) : join none (text.map pieceOf) = .ok text := by
  induction text with
  | nil => rfl
  | cons char text ih =>
      rw [List.map_cons, pieceOf]
      by_cases numeric : escapeLetter? char = none ∧ char < ' '
      · have small : char.toNat < 32 := numeric.2
        have high : isHigh char.toNat = false := by
          simp only [isHigh, decide_eq_false_iff_not]
          omega
        have low : isLow char.toNat = false := by
          simp only [isLow, decide_eq_false_iff_not]
          omega
        rw [if_pos numeric, join.eq_def]
        simp [high, low, ih, bind, Except.bind, pure, Except.pure]
      · rw [if_neg numeric, join, ih]
        rfl

/-- A text is read back from its literal. -/
@[simp]
theorem content_ofText (text : List Char) :
    content (ofText text) = .ok (String.ofList text) := by
  rw [content, ofText, join_map_pieceOf]
  rfl

end Quoted

/-! ## Numerals -/

/-- What may follow a value: nothing, or a character that separates it from
the next one or closes what it stands in. -/
def Delimited (rest : List Char) : Prop :=
  ∀ char ∈ rest.head?, char ∈ [',', ']', '\x7d']

theorem Delimited.cases {char : Char} {rest : List Char} (delimited : Delimited (char :: rest)) :
    char = ',' ∨ char = ']' ∨ char = '\x7d' := by
  have separates := delimited char rfl
  simpa only [List.mem_cons, List.not_mem_nil, or_false] using separates

theorem delimited_nil : Delimited [] := by
  simp [Delimited]

theorem delimited_cons {char : Char} (separates : char ∈ [',', ']', '\x7d']) (rest : List Char) :
    Delimited (char :: rest) := by
  simpa [Delimited] using separates

namespace Numeral

/-- Digits are split off up to where a value may end. -/
theorem splitDigits_append {digits rest : List Char} (decimal : digits.all Char.isDigit)
    (delimited : Delimited rest) : splitDigits (digits ++ rest) = (digits, rest) := by
  rw [List.all_eq_true] at decimal
  rw [splitDigits, List.takeWhile_append_of_pos decimal, List.dropWhile_append_of_pos decimal]
  cases rest with
  | nil => simp
  | cons char rest =>
      have separates : ¬ char.isDigit = true := by
        rcases delimited.cases with rfl | rfl | rfl <;> decide
      rw [List.takeWhile_cons_of_neg separates, List.dropWhile_cons_of_neg separates,
        List.append_nil]

/-- A numeral without point and exponent ends where a value may end. -/
theorem readFraction_delimited (numeral : Numeral) {rest : List Char}
    (delimited : Delimited rest) : readFraction numeral rest = .complete numeral rest := by
  cases rest with
  | nil => rfl
  | cons char rest =>
      rcases delimited.cases with rfl | rfl | rfl <;> rfl

/-- A natural number is read from its digits. -/
theorem read_toDigits (value : Nat) {rest : List Char} (delimited : Delimited rest) :
    read (Nat.toDigits 10 value ++ rest) =
      .complete { negative := false, whole := Nat.toDigits 10 value } rest := by
  have split := splitDigits_append (toDigits_all_isDigit value) delimited
  have unsigned : readUnsigned false (Nat.toDigits 10 value ++ rest) =
      .complete { negative := false, whole := Nat.toDigits 10 value } rest := by
    rw [readUnsigned, split]
    simp only [List.isEmpty_iff, Nat.toDigits_ne_nil, and_comm, toDigits_no_leading_zero,
      if_false, readFraction_delimited _ delimited]
  rcases toDigits_eq_cons value with ⟨digit, digits, written, decimal⟩
  rw [← unsigned, written, List.cons_append, read.eq_def]
  split
  · next sign => exact absurd decimal (by rw [(List.cons.inj sign).1]; decide)
  · rfl

end Numeral

end CoinSelection.Json
