import CoinSelection.Hex
import CoinSelection.Json.Fault

/-!
# String literals

A literal stands between quotes.  In it a quote, a reversed solidus and every
control character is escaped, by a letter where there is one and otherwise by
four hexadecimal digits; all else stands for itself.

Reading is done in two steps.  `Quoted.read` finds the end of a literal and
needs only that every escape is well formed.  `Quoted.content` puts the
characters together, and there the numeric escapes have to form characters:
one above `U+FFFF` takes two of them, a high and a low surrogate.
-/

namespace CoinSelection.Json

/-! ## Escapes -/

/-- The characters that are escaped by a letter, with their letters. -/
def shortEscapes : List (Char × Char) :=
  [('"', '"'), ('\\', '\\'), ('\x08', 'b'), ('\x0c', 'f'), ('\n', 'n'), ('\r', 'r'), ('\t', 't')]

/-- The letter that escapes a character. -/
def escapeLetter? (char : Char) : Option Char :=
  shortEscapes.lookup char

/-- The character that a letter escapes.  A solidus may be escaped, but never
has to be. -/
def escapedBy? (letter : Char) : Option Char :=
  if letter = '/' then some '/'
  else (shortEscapes.find? fun entry => entry.2 = letter).map fun entry => entry.1

/-- A character as it is written in a literal. -/
def writeChar (char : Char) : List Char :=
  match escapeLetter? char with
  | some letter => ['\\', letter]
  | none =>
      if char < ' ' then '\\' :: 'u' :: '0' :: '0' :: Hex.digitsOf (UInt8.ofNat char.toNat)
      else [char]

/-- The literal for a text. -/
def writeQuoted (text : List Char) : List Char :=
  '"' :: text.flatMap writeChar ++ ['"']

/-! ## Pieces of a literal -/

/-- A piece of a literal. -/
inductive Piece
  /-- A character. -/
  | char (char : Char)
  /-- The sixteen bits of a numeric escape. -/
  | unit (code : Nat)
  deriving DecidableEq, Repr

/-- A literal after its opening quote, as far as it can be read.  It ends with
the closing quote, or else with a fault. -/
structure Quoted where
  pieces : List Piece
  ending : Option Fault
  deriving DecidableEq, Repr

namespace Quoted

/-- Nothing can be read. -/
def stop (fault : Fault) : Quoted × Option (List Char) :=
  (⟨[], some fault⟩, none)

/-- Put a piece in front of what is read after it. -/
def push (piece : Piece) (read : Quoted × Option (List Char)) : Quoted × Option (List Char) :=
  (⟨piece :: read.1.pieces, read.1.ending⟩, read.2)

/-- The sixteen bits that four digits stand for. -/
def unitOf? (digits : List Char) : Option Nat :=
  match Hex.decode (String.ofList digits) with
  | .ok [high, low] => some (256 * high.toNat + low.toNat)
  | _ => none

/-- Why an escape with fewer than four characters behind it is not complete:
the text ends within four bytes, or one of them is not a digit. -/
def shortFault (rest : List Char) : Fault :=
  if (Hex.utf8 rest).length < 4 then .truncated else .malformed

/-- Read a literal after its opening quote, and what follows it unless there is
a fault. -/
def read : List Char → Quoted × Option (List Char)
  | [] => stop .truncated
  | '"' :: rest => (⟨[], none⟩, some rest)
  | '\\' :: 'u' :: first :: second :: third :: fourth :: rest =>
      match unitOf? [first, second, third, fourth] with
      | some code => push (.unit code) (read rest)
      | none => stop .malformed
  | '\\' :: 'u' :: rest => stop (shortFault rest)
  | '\\' :: letter :: rest =>
      match escapedBy? letter with
      | some char => push (.char char) (read rest)
      | none => stop .malformed
  | ['\\'] => stop .truncated
  | char :: rest => if char < ' ' then stop .malformed else push (.char char) (read rest)

/-! ## The content of a literal -/

/-- Whether a unit is the first of a pair. -/
def isHigh (code : Nat) : Bool :=
  0xd800 ≤ code ∧ code < 0xdc00

/-- Whether a unit is the second of a pair. -/
def isLow (code : Nat) : Bool :=
  0xdc00 ≤ code ∧ code < 0xe000

/-- The character of a pair. -/
def pairChar (high low : Nat) : Char :=
  Char.ofNat (0x10000 + (high - 0xd800) * 0x400 + (low - 0xdc00))

/-- Put the characters of pieces together.  A high unit needs a low one next to
it, and if the literal ends before that the fault is that of its end. -/
def join (ending : Option Fault) : List Piece → Except Fault (List Char)
  | [] => match ending with
      | none => .ok []
      | some fault => .error fault
  | .char char :: rest => return char :: (← join ending rest)
  | .unit code :: rest =>
      if isLow code then .error .malformed
      else if isHigh code then
        match rest with
        | [] => .error (ending.getD .malformed)
        | .unit next :: others =>
            if isLow next then return pairChar code next :: (← join ending others)
            else .error .malformed
        | .char _ :: _ => .error .malformed
      else return Char.ofNat code :: (← join ending rest)

/-- The text that a literal stands for. -/
def content (quoted : Quoted) : Except Fault String :=
  (join quoted.ending quoted.pieces).map String.ofList

/-- Check only that a literal ends. -/
def skip (quoted : Quoted) : Except Fault Unit :=
  match quoted.ending with
  | none => .ok ()
  | some fault => .error fault

end Quoted

end CoinSelection.Json
