import CoinSelection.Proofs.Json.Literals

/-!
# Reading values back

The text of a value is read as an outline of the same shape, and the reader
stops where the value ends.  A reader takes a step for every bracket, entry and
value that it meets; no character of a written value takes more than four.

There is one rule for every kind of value that outputs, filters and responses
are made of.  Numbers of the thirty-two bit format have none: their text is the
shortest that distinguishes them, and what it is read as is another matter.
-/

namespace CoinSelection.Json

/-! ## What a text is read as -/

/-- The text of a value is read as an outline, whatever separates it from what
follows. -/
structure Value.Reads (value : Value) (outline : Outline) : Prop where
  /-- The first character shows that a value begins. -/
  begins : ∃ char rest, value.write = char :: rest ∧ isBlank char = false ∧ char ≠ ']'
  /-- Four steps for every character are enough. -/
  read : ∀ {steps : Nat} {rest : List Char}, 4 * value.write.length ≤ steps → Delimited rest →
    readValue steps (value.write ++ rest) = (outline, some rest)

theorem skipBlanks_cons {char : Char} (visible : isBlank char = false) (rest : List Char) :
    skipBlanks (char :: rest) = char :: rest :=
  List.dropWhile_cons_of_neg (by simp [visible])

namespace Value.Reads

/-! ## Scalars -/

theorem null : Value.null.Reads .null := by
  constructor
  · exact ⟨'n', ['u', 'l', 'l'], rfl, rfl, by decide⟩
  · intro steps rest enough delimited
    cases steps with
    | zero => exact absurd enough (by decide)
    | succ steps => rfl

theorem isBlank_of_isDigit {digit : Char} (decimal : digit.isDigit = true) :
    isBlank digit = false := by
  by_contra blank
  simp only [isBlank, Bool.not_eq_false, Bool.or_eq_true, decide_eq_true_eq, or_assoc] at blank
  rcases blank with rfl | rfl | rfl | rfl <;> exact absurd decimal (by decide)

/-- A digit begins a number and nothing else. -/
theorem readValue_digit {digit : Char} (decimal : digit.isDigit = true) (steps : Nat)
    (rest : List Char) :
    readValue (steps + 1) (digit :: rest) = readNumeral (digit :: rest) := by
  rw [readValue, skipBlanks_cons (isBlank_of_isDigit decimal)]
  split
  case h_8 same =>
    cases same
    rw [if_pos (Or.inr decimal)]
  case h_1 nothing => cases nothing
  -- What begins anything else is no digit.
  all_goals
    rename_i same
    cases same
    exact absurd decimal (by decide)

theorem natural (value : Nat) :
    (Value.natural value).Reads
      (.number { negative := false, whole := Nat.toDigits 10 value }) := by
  rcases toDigits_eq_cons value with ⟨digit, digits, written, decimal⟩
  have text : (Value.natural value).write = digit :: digits := written
  constructor
  · refine ⟨digit, digits, text, isBlank_of_isDigit decimal, ?_⟩
    rintro rfl
    exact absurd decimal (by decide)
  · intro steps rest enough delimited
    cases steps with
    | zero => exact absurd enough (by simp [text])
    | succ steps =>
        rw [text, List.cons_append, readValue_digit decimal, ← List.cons_append, ← written,
          readNumeral, Numeral.read_toDigits value delimited]
        rfl

theorem text (value : String) :
    (Value.text value).Reads (.text (.ofText value.toList)) := by
  constructor
  · exact ⟨'"', _, rfl, rfl, by decide⟩
  · intro steps rest enough delimited
    cases steps with
    | zero => exact absurd enough (by simp [write, writeQuoted])
    | succ steps =>
        have literal := Quoted.read_flatMap_writeChar value.toList rest
        simp [write, writeQuoted, readValue, skipBlanks_cons, isBlank, literal]

/-! ## Arrays -/

theorem writeItems_cons (item : Value) (items : List Value) :
    writeItems false (item :: items) = ',' :: (item.write ++ writeItems false items) :=
  rfl

/-- The last item is followed by the closing bracket. -/
theorem readItem_last {item : Value} {outline : Outline} (reads : item.Reads outline)
    {steps : Nat} (enough : 4 * item.write.length ≤ steps) (rest : List Char) :
    readItem (steps + 1) (item.write ++ ']' :: rest) = ⟨[outline], none, some rest⟩ := by
  rw [readItem, reads.read enough (delimited_cons (by decide) rest)]
  rfl

/-- Any other item is followed by a comma, and reading goes on behind it. -/
theorem readItem_next {item : Value} {outline : Outline} (reads : item.Reads outline)
    {steps : Nat} (enough : 4 * item.write.length ≤ steps) (rest : List Char) :
    readItem (steps + 1) (item.write ++ ',' :: rest) = .cons outline (readItem steps rest) := by
  rw [readItem, reads.read enough (delimited_cons (by decide) rest)]
  rfl

/-- Items are read one after the other. -/
theorem readItem_writeItems {item : Value} {outline : Outline} {items : List Value}
    {outlines : List Outline} (first : item.Reads outline)
    (others : List.Forall₂ Reads items outlines) {steps : Nat}
    (enough : 4 * (item.write ++ writeItems false items).length ≤ steps) (rest : List Char) :
    readItem (steps + 1) (item.write ++ writeItems false items ++ rest) =
      ⟨outline :: outlines, none, some rest⟩ := by
  rw [List.length_append] at enough
  induction others generalizing item outline steps with
  | nil =>
      rw [List.append_assoc]
      exact readItem_last first (by omega) rest
  | @cons next outline' items outlines second others ih =>
      rw [writeItems_cons, List.length_cons, List.length_append] at enough
      rcases Nat.exists_eq_add_one_of_ne_zero (show steps ≠ 0 by omega) with ⟨steps, rfl⟩
      rw [writeItems_cons, List.append_assoc, List.cons_append, readItem_next first (by omega),
        ih second (by omega)]
      rfl

/-- What does not close an array begins its first item. -/
theorem readItems_begin {char : Char} (visible : isBlank char = false) (notClosing : char ≠ ']')
    (steps : Nat) (rest : List Char) :
    readItems (steps + 1) (char :: rest) = readItem steps (char :: rest) := by
  rw [readItems, skipBlanks_cons visible]
  split
  · next closing => exact absurd (List.cons.inj closing).1 notClosing
  · next empty => cases empty
  · rfl

/-- The items of an array are read up to its closing bracket. -/
theorem readItems_write {items : List Value} {outlines : List Outline}
    (each : List.Forall₂ Reads items outlines) {steps : Nat}
    (enough : 4 * (writeItems true items).length ≤ steps) (rest : List Char) :
    readItems (steps + 2) (writeItems true items ++ rest) = ⟨outlines, none, some rest⟩ := by
  cases each with
  | nil => rfl
  | @cons item outline items outlines first others =>
      rcases first.begins with ⟨char, chars, written, visible, notClosing⟩
      have joined : writeItems true (item :: items) = item.write ++ writeItems false items := rfl
      have entered := readItems_begin visible notClosing (steps + 1)
        (chars ++ (writeItems false items ++ rest))
      rw [← List.cons_append, ← written, ← List.append_assoc] at entered
      rw [joined] at enough
      rw [joined, entered]
      exact readItem_writeItems first others enough rest

/-- An array is read as the array of what its items are read as. -/
theorem array {items : List Value} {outlines : List Outline}
    (each : List.Forall₂ Reads items outlines) :
    (Value.array items).Reads (.array outlines none) := by
  have opened : (Value.array items).write = '[' :: writeItems true items := rfl
  constructor
  · exact ⟨'[', _, opened, rfl, by decide⟩
  · intro steps rest enough delimited
    rw [opened, List.length_cons] at enough
    rcases Nat.exists_eq_add_of_le' (show 3 ≤ steps by omega) with ⟨steps, rfl⟩
    have read :=
      readItems_write each (show 4 * (writeItems true items).length ≤ steps by omega) rest
    rw [opened, List.cons_append, readValue, skipBlanks_cons rfl]
    simp only [read]

/-! ## Objects -/

/-- A member is read as its name and as what its value is read as. -/
def Member (member : String × Value) (entry : Quoted × Outline) : Prop :=
  entry.1 = .ofText member.1.toList ∧ member.2.Reads entry.2

/-- The text of a member. -/
def writeMember (member : String × Value) : List Char :=
  writeQuoted member.1.toList ++ ':' :: member.2.write

theorem writeMember_append (name : String) (value : Value) (rest : List Char) :
    writeMember (name, value) ++ rest =
      '"' :: (name.toList.flatMap writeChar ++ '"' :: (':' :: value.write ++ rest)) := by
  simp [writeMember, writeQuoted]

theorem length_write_le (name : String) (value : Value) :
    value.write.length ≤ (writeMember (name, value)).length := by
  simp only [writeMember, List.length_append, List.length_cons]
  omega

theorem writeMembers_cons (first : Bool) (member : String × Value)
    (members : List (String × Value)) :
    writeMembers first (member :: members) =
      separator first ++ (writeMember member ++ writeMembers false members) := by
  simp [writeMembers, writeMember]

theorem readMemberValue_write {value : Value} {outline : Outline} (reads : value.Reads outline)
    {steps : Nat} (enough : 4 * value.write.length ≤ steps) {rest : List Char}
    (delimited : Delimited rest) :
    readMemberValue (steps + 1) (some (':' :: value.write ++ rest)) = (outline, some rest) := by
  rw [List.cons_append, readMemberValue, skipBlanks_cons rfl]
  exact reads.read enough delimited

/-- The last member is followed by the closing brace. -/
theorem readMember_last {member : String × Value} {entry : Quoted × Outline}
    (reads : Member member entry) {steps : Nat}
    (enough : 4 * (writeMember member).length ≤ steps) (rest : List Char) :
    readMember (steps + 2) (writeMember member ++ '\x7d' :: rest) =
      ⟨[entry], none, some rest⟩ := by
  rcases member with ⟨name, value⟩
  rcases entry with ⟨written, outline⟩
  rcases reads with ⟨rfl, reads⟩
  have shorter := length_write_le name value
  have read := readMemberValue_write reads (show 4 * value.write.length ≤ steps by omega)
    (delimited_cons (show '\x7d' ∈ _ by decide) rest)
  rw [writeMember_append, readMember, skipBlanks_cons rfl]
  simp only [Quoted.read_flatMap_writeChar, read]
  rfl

/-- Any other member is followed by a comma, and reading goes on behind it. -/
theorem readMember_next {member : String × Value} {entry : Quoted × Outline}
    (reads : Member member entry) {steps : Nat}
    (enough : 4 * (writeMember member).length ≤ steps) (rest : List Char) :
    readMember (steps + 2) (writeMember member ++ ',' :: rest) =
      .cons entry (readMember (steps + 1) rest) := by
  rcases member with ⟨name, value⟩
  rcases entry with ⟨written, outline⟩
  rcases reads with ⟨rfl, reads⟩
  have shorter := length_write_le name value
  have read := readMemberValue_write reads (show 4 * value.write.length ≤ steps by omega)
    (delimited_cons (show ',' ∈ _ by decide) rest)
  rw [writeMember_append, readMember, skipBlanks_cons rfl]
  simp only [Quoted.read_flatMap_writeChar, read]
  rfl

/-- Members are read one after the other. -/
theorem readMember_writeMembers {member : String × Value} {entry : Quoted × Outline}
    {members : List (String × Value)} {entries : List (Quoted × Outline)}
    (first : Member member entry) (others : List.Forall₂ Member members entries) {steps : Nat}
    (enough : 4 * (writeMember member ++ writeMembers false members).length ≤ steps)
    (rest : List Char) :
    readMember (steps + 2) (writeMember member ++ writeMembers false members ++ rest) =
      ⟨entry :: entries, none, some rest⟩ := by
  rw [List.length_append] at enough
  induction others generalizing member entry steps with
  | nil =>
      rw [List.append_assoc]
      exact readMember_last first (by omega) rest
  | @cons next entry' members entries second others ih =>
      have comma : writeMembers false (next :: members) =
          ',' :: (writeMember next ++ writeMembers false members) :=
        writeMembers_cons false next members
      rw [comma, List.length_cons, List.length_append] at enough
      rcases Nat.exists_eq_add_one_of_ne_zero (show steps ≠ 0 by omega) with ⟨steps, rfl⟩
      rw [comma, List.append_assoc, List.cons_append, readMember_next first (by omega),
        ih second (by omega)]
      rfl

/-- What begins a member does not close an object. -/
theorem readMembers_begin (member : String × Value) (steps : Nat) (rest : List Char) :
    readMembers (steps + 1) (writeMember member ++ rest) =
      readMember steps (writeMember member ++ rest) :=
  rfl

/-- The members of an object are read up to its closing brace. -/
theorem readMembers_write {members : List (String × Value)} {entries : List (Quoted × Outline)}
    (each : List.Forall₂ Member members entries) {steps : Nat}
    (enough : 4 * (writeMembers true members).length ≤ steps) (rest : List Char) :
    readMembers (steps + 3) (writeMembers true members ++ rest) = ⟨entries, none, some rest⟩ := by
  cases each with
  | nil => rfl
  | @cons member entry members entries first others =>
      have joined : writeMembers true (member :: members) =
          writeMember member ++ writeMembers false members :=
        writeMembers_cons true member members
      rw [joined] at enough
      rw [joined, List.append_assoc, readMembers_begin, ← List.append_assoc]
      exact readMember_writeMembers first others enough rest

/-- An object is read as the object of what its members are read as. -/
theorem object {members : List (String × Value)} {entries : List (Quoted × Outline)}
    (each : List.Forall₂ Member members entries) :
    (Value.object members).Reads (.object entries none) := by
  have opened : (Value.object members).write = '\x7b' :: writeMembers true members := rfl
  constructor
  · exact ⟨'\x7b', _, opened, rfl, by decide⟩
  · intro steps rest enough delimited
    rw [opened, List.length_cons] at enough
    rcases Nat.exists_eq_add_of_le' (show 4 ≤ steps by omega) with ⟨steps, rfl⟩
    have read :=
      readMembers_write each (show 4 * (writeMembers true members).length ≤ steps by omega) rest
    rw [opened, List.cons_append, readValue, skipBlanks_cons rfl]
    simp only [read]

end Value.Reads

/-! ## Whole texts -/

/-- Asking the text of a value for something is asking its outline. -/
theorem Value.Reads.parse_render {α : Type} {value : Value} {outline : Outline}
    (reads : value.Reads outline) (read : Outline → Except Fault α) :
    parse read value.render = read outline := by
  have document : Document.read value.render = ⟨outline, none⟩ := by
    have whole : readValue (Document.stepsFor value.write) (value.write ++ []) =
        (outline, some []) :=
      reads.read (Nat.le_add_right _ _) delimited_nil
    rw [List.append_nil] at whole
    simp only [Document.read, render, String.toList_ofList, whole]
    rfl
  rw [parse, document]
  cases read outline <;> rfl

end CoinSelection.Json
