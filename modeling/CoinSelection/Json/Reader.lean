import CoinSelection.Json.Outline

/-!
# Reading a text

`Document.read` makes an outline of a text.  A document is one value with
blanks around it; anything else behind the value is malformed, but that shows
only after the value itself has been accepted.

Every step of the reader uses up a character, so the number of characters
bounds the number of steps.
-/

namespace CoinSelection.Json

/-! ## Blanks and words -/

/-- Whether a character separates and means nothing else. -/
def isBlank (char : Char) : Bool :=
  char = ' ' || char = '\n' || char = '\t' || char = '\r'

/-- Drop the blanks in front of a text. -/
def skipBlanks (text : List Char) : List Char :=
  text.dropWhile isBlank

/-- An outline, and what follows it unless the reader has stopped. -/
abbrev Reading : Type :=
  Outline × Option (List Char)

/-- Stop at a fault, whoever asks. -/
def stopReading (fault : Fault) : Reading :=
  (.broken fault fault, none)

/-- Read the remaining letters of a word that stands for a value. -/
def readLetters (value : Outline) : List Char → List Char → Reading
  | [], text => (value, some text)
  | _ :: _, [] => stopReading .truncated
  | letter :: letters, char :: text =>
      if char = letter then readLetters value letters text else stopReading .malformed

/-- Read a number. -/
def readNumeral (text : List Char) : Reading :=
  let reading := Numeral.read text
  match reading.numeral with
  | .ok numeral => (.number numeral, reading.rest)
  | .error (whenRead, whenSkipped) => (.broken whenRead whenSkipped, none)

/-! ## Lists -/

/-- The entries of a list, the fault that it ends with unless it is closed, and
what follows it unless the reader has stopped. -/
structure ListReading (α : Type) where
  entries : List α := []
  ending : Option Fault := none
  rest : Option (List Char) := none

namespace ListReading

/-- The list is closed. -/
def closed {α : Type} (rest : List Char) : ListReading α :=
  { rest := some rest }

/-- The reader stops in the list. -/
def stopped {α : Type} (fault : Fault) : ListReading α :=
  { ending := some fault }

/-- Put an entry in front of the others. -/
def cons {α : Type} (entry : α) (reading : ListReading α) : ListReading α :=
  { reading with entries := entry :: reading.entries }

/-- The fault of a list that neither goes on nor is closed. -/
def stoppedAt {α : Type} : List Char → ListReading α
  | [] => stopped .truncated
  | _ :: _ => stopped .malformed

end ListReading

/-! ## Values -/

mutual

/-- Read a value, in at most the given number of steps. -/
def readValue : Nat → List Char → Reading
  | 0, _ => stopReading .truncated
  | steps + 1, text =>
      match skipBlanks text with
      | [] => stopReading .truncated
      | 'n' :: rest => readLetters .null ['u', 'l', 'l'] rest
      | 't' :: rest => readLetters (.bool true) ['r', 'u', 'e'] rest
      | 'f' :: rest => readLetters (.bool false) ['a', 'l', 's', 'e'] rest
      | '"' :: rest =>
          let (quoted, following) := Quoted.read rest
          (.text quoted, following)
      | '[' :: rest =>
          let reading := readItems steps rest
          (.array reading.entries reading.ending, reading.rest)
      | '\x7b' :: rest =>
          let reading := readMembers steps rest
          (.object reading.entries reading.ending, reading.rest)
      | char :: rest =>
          if char = '-' ∨ char.isDigit then readNumeral (char :: rest)
          else stopReading .malformed

/-- Read the items of an array after its opening bracket. -/
def readItems : Nat → List Char → ListReading Outline
  | 0, _ => .stopped .truncated
  | steps + 1, text =>
      match skipBlanks text with
      | ']' :: rest => .closed rest
      | [] => .stopped .truncated
      | rest => readItem steps rest

/-- Read an item of an array and all that follow it. -/
def readItem : Nat → List Char → ListReading Outline
  | 0, _ => .stopped .truncated
  | steps + 1, text =>
      let (item, following) := readValue steps text
      .cons item <|
        match following with
        | none => .stopped .malformed
        | some rest =>
            match skipBlanks rest with
            | ',' :: rest => readItem steps rest
            | ']' :: rest => .closed rest
            | rest => .stoppedAt rest

/-- Read the members of an object after its opening bracket. -/
def readMembers : Nat → List Char → ListReading (Quoted × Outline)
  | 0, _ => .stopped .truncated
  | steps + 1, text =>
      match skipBlanks text with
      | '\x7d' :: rest => .closed rest
      | rest => readMember steps rest

/-- Read a member of an object and all that follow it. -/
def readMember : Nat → List Char → ListReading (Quoted × Outline)
  | 0, _ => .stopped .truncated
  | steps + 1, text =>
      match skipBlanks text with
      | '"' :: rest =>
          let (name, following) := Quoted.read rest
          let (value, following) := readMemberValue steps following
          .cons (name, value) <|
            match following with
            | none => .stopped .malformed
            | some rest =>
                match skipBlanks rest with
                | ',' :: rest => readMember steps rest
                | '\x7d' :: rest => .closed rest
                | rest => .stoppedAt rest
      | rest => .stoppedAt rest

/-- Read the value of a member after its name. -/
def readMemberValue : Nat → Option (List Char) → Reading
  | 0, _ => stopReading .truncated
  | _ + 1, none => stopReading .malformed
  | steps + 1, some text =>
      match skipBlanks text with
      | ':' :: rest => readValue steps rest
      | [] => stopReading .truncated
      | _ :: _ => stopReading .malformed

end

/-! ## Documents -/

/-- A value, and the fault behind it if there is one. -/
structure Document where
  value : Outline
  ending : Option Fault

namespace Document

/-- The fault of what follows a value. -/
def endingOf : Option (List Char) → Option Fault
  | none => none
  | some rest => if (skipBlanks rest).isEmpty then none else some .malformed

/-- The steps that are enough for a text.  No character takes more than four:
a value, a list, an entry of it and the value of that entry. -/
def stepsFor (text : List Char) : Nat :=
  4 * text.length + 4

/-- Make an outline of a text. -/
def read (text : String) : Document :=
  let chars := text.toList
  let (value, following) := readValue (stepsFor chars) chars
  ⟨value, endingOf following⟩

end Document

/-- Read a value of a text. -/
def parse {α : Type} (read : Outline → Except Fault α) (text : String) : Except Fault α := do
  let document := Document.read text
  let value ← read document.value
  requireClosed document.ending
  pure value

end CoinSelection.Json
