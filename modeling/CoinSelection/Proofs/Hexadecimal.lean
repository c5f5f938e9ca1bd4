import CoinSelection.Proofs.Identifiers

/-!
# Which texts are identifiers

A text stands for thirty-two bytes exactly when it is sixty-four hexadecimal
digits, and then these bytes are written as the same text in lower case.  Of any
other text one thing is reported: an odd number of bytes, else the first byte
that is not a digit, else the number of bytes.
-/

namespace CoinSelection

namespace Hex

/-! ## Digits -/

/-- Whether a byte is a hexadecimal digit of ASCII, in either case. -/
def isDigit (byte : UInt8) : Bool :=
  48 ≤ byte && byte ≤ 57 || 65 ≤ byte && byte ≤ 70 || 97 ≤ byte && byte ≤ 102

/-- The character of an ASCII byte, in lower case. -/
def lowerChar (byte : UInt8) : Char :=
  (Char.ofNat byte.toNat).toLower

/-- A property of all bytes, from the table of their codes. -/
theorem forall_byte {property : UInt8 → Prop}
    (table : ∀ code < 256, property (UInt8.ofNat code)) (byte : UInt8) : property byte := by
  have entry := table byte.toNat byte.toNat_lt
  rwa [UInt8.ofNat_toNat] at entry

/-- A digit has a value below sixteen, and that is written as the digit in lower
case. -/
theorem readDigit_of_isDigit {byte : UInt8} (digit : isDigit byte = true) :
    ∃ value < 16, readDigit byte = .ok value ∧ Nat.digitChar value = lowerChar byte := by
  have table : ∀ byte, isDigit byte = true →
      ∃ value < 16, digitValue? byte = some value ∧ Nat.digitChar value = lowerChar byte :=
    forall_byte (by decide +kernel)
  obtain ⟨value, small, read, written⟩ := table byte digit
  exact ⟨value, small, by rw [readDigit, read], written⟩

/-- A digit is an ASCII byte. -/
theorem toNat_lt_of_isDigit : ∀ byte, isDigit byte = true → byte.toNat < 128 :=
  forall_byte (by decide +kernel)

/-- Any other byte is reported. -/
theorem readDigit_of_not_isDigit {byte : UInt8} (other : isDigit byte = false) :
    readDigit byte = .error (.invalidByte byte) := by
  have table : ∀ byte, isDigit byte = false → digitValue? byte = none :=
    forall_byte (by decide +kernel)
  rw [readDigit, table byte other]

/-! ## Pairs of digits -/

/-- The digits of two values are the digits of the byte that they form. -/
theorem digitsOf_ofNat {high low : Nat} (highSmall : high < 16) (lowSmall : low < 16) :
    digitsOf (UInt8.ofNat (16 * high + low)) = [Nat.digitChar high, Nat.digitChar low] := by
  have code : (UInt8.ofNat (16 * high + low)).toNat = 16 * high + low := by
    rw [UInt8.toNat_ofNat']
    omega
  have high_eq : (16 * high + low) / 16 = high := by omega
  have low_eq : (16 * high + low) % 16 = low := by omega
  rw [digitsOf, code, high_eq, low_eq]

theorem even_of_even_cons_cons {first second : UInt8} {rest : List UInt8}
    (even : (first :: second :: rest).length % 2 = 0) : rest.length % 2 = 0 := by
  simp only [List.length_cons] at even
  omega

/-- Digits are read, and what is read is written as these digits in lower
case. -/
theorem decodePairs_of_digits {bytes : List UInt8} (even : bytes.length % 2 = 0)
    (digits : ∀ byte ∈ bytes, isDigit byte = true) :
    ∃ decoded, decodePairs bytes = .ok decoded ∧
      decoded.flatMap digitsOf = bytes.map lowerChar := by
  fun_induction decodePairs bytes with
  | case1 high low rest ih =>
      simp only [List.forall_mem_cons] at digits
      obtain ⟨highDigit, lowDigit, restDigits⟩ := digits
      obtain ⟨highValue, highSmall, highRead, highWritten⟩ := readDigit_of_isDigit highDigit
      obtain ⟨lowValue, lowSmall, lowRead, lowWritten⟩ := readDigit_of_isDigit lowDigit
      obtain ⟨decoded, restRead, restWritten⟩ :=
        ih (even_of_even_cons_cons even) restDigits
      refine ⟨UInt8.ofNat (16 * highValue + lowValue) :: decoded, ?_, ?_⟩
      · rw [highRead, lowRead, restRead]
        rfl
      · rw [List.flatMap_cons, digitsOf_ofNat highSmall lowSmall, restWritten, highWritten,
          lowWritten]
        rfl
  | case2 bytes single =>
      match bytes with
      | [] => exact ⟨[], rfl, rfl⟩
      | [byte] => simp at even
      | high :: low :: rest => exact (single high low rest rfl).elim

/-- The first byte that is not a digit is reported. -/
theorem decodePairs_of_find? {bytes : List UInt8} {byte : UInt8} (even : bytes.length % 2 = 0)
    (found : bytes.find? (fun byte => !isDigit byte) = some byte) :
    decodePairs bytes = .error (.invalidByte byte) := by
  fun_induction decodePairs bytes with
  | case1 high low rest ih =>
      cases highDigit : isDigit high with
      | false =>
          obtain rfl : high = byte := by simpa [highDigit] using found
          rw [readDigit_of_not_isDigit highDigit]
          rfl
      | true =>
          obtain ⟨highValue, -, highRead, -⟩ := readDigit_of_isDigit highDigit
          rw [highRead]
          cases lowDigit : isDigit low with
          | false =>
              obtain rfl : low = byte := by simpa [highDigit, lowDigit] using found
              rw [readDigit_of_not_isDigit lowDigit]
              rfl
          | true =>
              obtain ⟨lowValue, -, lowRead, -⟩ := readDigit_of_isDigit lowDigit
              have restFound : rest.find? (fun byte => !isDigit byte) = some byte := by
                simpa [highDigit, lowDigit] using found
              rw [lowRead, ih (even_of_even_cons_cons even) restFound]
              rfl
  | case2 bytes single =>
      match bytes with
      | [] => simp at found
      | [byte] => simp at even
      | high :: low :: rest => exact (single high low rest rfl).elim

/-! ## Characters of a text of digits -/

/-- The encoding of any other character has a byte that is not in ASCII. -/
theorem exists_not_ascii {char : Char} (other : ¬ char.toNat ≤ 127) :
    ∃ byte ∈ String.utf8EncodeChar char, 128 ≤ byte.toNat := by
  simp only [String.utf8EncodeChar, Char.toNat] at other ⊢
  split_ifs <;> refine ⟨_, List.mem_cons_self, ?_⟩ <;> rw [UInt8.toNat_ofNat'] <;> omega

/-- A character that is encoded in digits is one of them. -/
theorem utf8EncodeChar_of_digits {char : Char}
    (digits : ∀ byte ∈ String.utf8EncodeChar char, isDigit byte = true) :
    ∃ byte, String.utf8EncodeChar char = [byte] ∧ lowerChar byte = char.toLower := by
  have ascii : char.toNat ≤ 127 := by
    by_contra other
    obtain ⟨byte, member, large⟩ := exists_not_ascii other
    exact absurd (toNat_lt_of_isDigit byte (digits byte member)) (not_lt.mpr large)
  have code : (UInt8.ofNat char.toNat).toNat = char.toNat := by
    rw [UInt8.toNat_ofNat']
    omega
  refine ⟨UInt8.ofNat char.toNat, if_pos ascii, ?_⟩
  rw [lowerChar, code, Char.ofNat_toNat]

/-- Digits in lower case are the characters of their text in lower case. -/
theorem map_lowerChar_bytesOf {text : String}
    (digits : ∀ byte ∈ bytesOf text, isDigit byte = true) :
    (bytesOf text).map lowerChar = text.toLower.toList := by
  suffices general : ∀ chars : List Char, (∀ byte ∈ utf8 chars, isDigit byte = true) →
      (utf8 chars).map lowerChar = chars.map Char.toLower by
    have toLower_eq : text.toLower = text.map Char.toLower := rfl
    rw [toLower_eq, String.toList_map]
    exact general text.toList digits
  intro chars
  induction chars with
  | nil => simp [utf8]
  | cons char chars ih =>
      intro digits
      have cons_eq : utf8 (char :: chars) = String.utf8EncodeChar char ++ utf8 chars := rfl
      rw [cons_eq, List.forall_mem_append] at digits
      obtain ⟨byte, encoded, lower⟩ := utf8EncodeChar_of_digits digits.1
      rw [cons_eq, encoded, List.map_append, ih digits.2, List.map_singleton, lower]
      rfl

/-! ## What is reported of a text -/

/-- What is wrong with a text that should be sixty-four digits: an odd number of
bytes, else the first byte that is not a digit, else the number of bytes. -/
def defect? (text : String) : Option Defect :=
  let bytes := bytesOf text
  if bytes.length % 2 = 1 then some (.oddLength bytes.length)
  else
    match bytes.find? fun byte => !isDigit byte with
    | some byte => some (.invalidByte byte)
    | none => if bytes.length = 64 then none else some (.wrongLength bytes.length 64)

/-- Nothing is wrong with sixty-four digits, and with no other text. -/
theorem defect?_eq_none_iff {text : String} :
    defect? text = none ↔
      (bytesOf text).length = 64 ∧ ∀ byte ∈ bytesOf text, isDigit byte = true := by
  unfold defect?
  dsimp only
  split
  · rename_i odd
    simp only [reduceCtorEq, false_iff, not_and]
    intro length_eq
    omega
  · split
    · rename_i byte found
      simp only [reduceCtorEq, false_iff, not_and]
      intro _ digits
      have other := List.find?_some found
      simp [digits byte (List.mem_of_find?_eq_some found)] at other
    · rename_i none
      have digits : ∀ byte ∈ bytesOf text, isDigit byte = true := by simpa using none
      simpa using fun _ => digits

/-- Digits are read, and their bytes are written as the text in lower case. -/
theorem decode_of_digits {text : String} (even : (bytesOf text).length % 2 = 0)
    (digits : ∀ byte ∈ bytesOf text, isDigit byte = true) :
    ∃ bytes, decode text = .ok bytes ∧ encode bytes = text.toLower ∧
      2 * bytes.length = (bytesOf text).length := by
  obtain ⟨bytes, read, written⟩ := decodePairs_of_digits even digits
  have written_eq : encode bytes = text.toLower := by
    rw [encode, written, map_lowerChar_bytesOf digits, String.ofList_toList]
  refine ⟨bytes, ?_, written_eq, ?_⟩
  · rw [decode, if_neg (by omega), read]
  · rw [← encode_length, encode, String.toList_ofList, written, List.length_map]

/-- A text with nothing wrong is read, and its bytes are written as the text in
lower case. -/
theorem decode32_of_none {text : String} (right : defect? text = none) :
    ∃ bytes, decode32 text = .ok bytes ∧ encode bytes.toList = text.toLower := by
  obtain ⟨length_eq, digits⟩ := defect?_eq_none_iff.mp right
  obtain ⟨bytes, read, written, length_bytes⟩ := decode_of_digits (by omega) digits
  have exact : bytes.length = 32 := by omega
  refine ⟨⟨bytes.toArray, by simpa using exact⟩, ?_, by simpa using written⟩
  simp only [decode32, read, bind, Except.bind, exact, dif_pos, pure, Except.pure]

/-- What is wrong with a text is reported. -/
theorem decode32_of_some {text : String} {defect : Defect} (wrong : defect? text = some defect) :
    decode32 text = .error defect := by
  unfold defect? at wrong
  dsimp only at wrong
  split at wrong
  · rename_i odd
    obtain rfl := Option.some.inj wrong
    rw [decode32, decode, if_pos odd]
    rfl
  rename_i even
  split at wrong
  · rename_i byte found
    obtain rfl := Option.some.inj wrong
    rw [decode32, decode, if_neg even, decodePairs_of_find? (by omega) found]
    rfl
  · rename_i none
    split at wrong
    · cases wrong
    · rename_i other
      obtain rfl := Option.some.inj wrong
      have digits : ∀ byte ∈ bytesOf text, isDigit byte = true := by simpa using none
      obtain ⟨bytes, read, -, length_bytes⟩ := decode_of_digits (by omega) digits
      have inexact : ¬ bytes.length = 32 := by omega
      simp only [decode32, read, bind, Except.bind, inexact, dif_neg, not_false_eq_true]

theorem decode32_eq_error_iff {text : String} {defect : Defect} :
    decode32 text = .error defect ↔ defect? text = some defect := by
  constructor
  · intro refused
    cases wrong : defect? text with
    | none =>
        obtain ⟨bytes, read, -⟩ := decode32_of_none wrong
        rw [read] at refused
        cases refused
    | some reported =>
        rw [decode32_of_some wrong] at refused
        rw [Except.error.inj refused]
  · exact decode32_of_some

theorem exists_decode32_iff {text : String} :
    (∃ bytes, decode32 text = .ok bytes) ↔ defect? text = none := by
  constructor
  · rintro ⟨bytes, read⟩
    cases wrong : defect? text with
    | none => rfl
    | some defect =>
        rw [decode32_of_some wrong] at read
        cases read
  · intro right
    obtain ⟨bytes, read, -⟩ := decode32_of_none right
    exact ⟨bytes, read⟩

/-- Bytes are written as the text that they were read from in lower case. -/
theorem encode_of_decode32 {text : String} {bytes : Vector UInt8 32}
    (read : decode32 text = .ok bytes) : encode bytes.toList = text.toLower := by
  obtain ⟨others, others_read, written⟩ :=
    decode32_of_none (exists_decode32_iff.mp ⟨bytes, read⟩)
  obtain rfl : bytes = others := Except.ok.inj (read.symm.trans others_read)
  exact written

end Hex

/-! ## Assets -/

namespace AssetId

/-- Every asset is read from its text.  A text is read exactly when it is
sixty-four hexadecimal digits, then it is that of the asset but for the case of
the digits, and otherwise what is reported is the first of the things that can
be wrong with it. -/
theorem parse_exact :
    (∀ asset : AssetId, parse asset.display = .ok asset) ∧
      ∀ text : String,
        ((∃ asset, parse text = .ok asset) ↔
            (Hex.bytesOf text).length = 64 ∧
              ∀ byte ∈ Hex.bytesOf text, Hex.isDigit byte = true) ∧
          (∀ asset, parse text = .ok asset → asset.display = text.toLower) ∧
          ∀ defect, parse text = .error defect ↔ Hex.defect? text = some defect := by
  refine ⟨parse_display, fun text => ⟨?_, ?_, ?_⟩⟩
  · rw [← Hex.defect?_eq_none_iff, ← Hex.exists_decode32_iff, parse]
    cases Hex.decode32 text <;> simp [Except.map]
  · intro asset read
    rw [parse] at read
    cases decoded : Hex.decode32 text with
    | error defect =>
        rw [decoded] at read
        cases read
    | ok bytes =>
        rw [decoded] at read
        cases read
        exact Hex.encode_of_decode32 decoded
  · intro defect
    rw [← Hex.decode32_eq_error_iff, parse]
    cases Hex.decode32 text <;> simp [Except.map]

/-- A text in upper case is read, and its asset is written in lower case. -/
theorem parse_exact_upperCase :
    parse (String.ofList (List.replicate 64 'A')) = .ok (ofByte 0xAA) ∧
      (ofByte 0xAA).display = (String.ofList (List.replicate 64 'A')).toLower := by
  have read : parse (String.ofList (List.replicate 64 'A')) = .ok (ofByte 0xAA) := by
    decide +kernel
  exact ⟨read, (parse_exact.2 _).2.1 _ read⟩

example :
    parse "zzz" = .error (.oddLength 3) ∧ parse "6fz2" = .error (.invalidByte 122) ∧
      parse "6f02" = .error (.wrongLength 4 64) := by
  decide +kernel

end AssetId

end CoinSelection
