import CoinSelection.Json.Numeral
import CoinSelection.Json.Quoted

/-!
# Outlines

An outline is what can be made out of a text: the value as far as it is well
formed, and in the place of the rest the fault that stops the reader.  It keeps
the order of the text, so that whoever asks it for a value reports the first
thing that is wrong from left to right, be it the text or the value in it.

Not every fault shows in every use.  A value that nobody asks for is skipped,
which is less strict about literals and numerals than reading it.
-/

namespace CoinSelection.Json

/-- What can be made out of a text.  A list of items or members ends with its
closing bracket, or else with a fault. -/
inductive Outline
  | null
  | bool (value : Bool)
  | number (numeral : Numeral)
  | text (quoted : Quoted)
  | array (items : List Outline) (ending : Option Fault)
  | object (members : List (Quoted × Outline)) (ending : Option Fault)
  /-- No value: the faults when it is read and when it is skipped. -/
  | broken (whenRead whenSkipped : Fault)

/-- Succeed at a closing bracket, and fail at a fault. -/
def requireClosed : Option Fault → Except Fault Unit
  | none => .ok ()
  | some fault => .error fault

namespace Outline

/-! ## Skipping -/

mutual

/-- Check that a value nobody asks for is well formed. -/
def skip : Outline → Except Fault Unit
  | .null | .bool _ | .number _ => .ok ()
  | .text quoted => quoted.skip
  | .array items ending => do
      skipItems items
      requireClosed ending
  | .object members ending => do
      skipMembers members
      requireClosed ending
  | .broken _ whenSkipped => .error whenSkipped
termination_by structural outline => outline

/-- Check items from the left. -/
def skipItems : List Outline → Except Fault Unit
  | [] => .ok ()
  | item :: rest => do
      skip item
      skipItems rest
termination_by structural items => items

/-- Check members from the left. -/
def skipMembers : List (Quoted × Outline) → Except Fault Unit
  | [] => .ok ()
  | (name, value) :: rest => do
      name.skip
      skip value
      skipMembers rest
termination_by structural members => members

end

/-! ## Reading -/

/-- The fault of a value that has another shape than the one asked for.  What
can be seen to be wrong with a scalar comes first; a bracket is refused before
anything behind it is looked at. -/
def misfit : Outline → Fault
  | .number numeral => if numeral.doubleMagnitude?.isSome then .mismatched else .malformed
  | .text quoted => match quoted.content with
      | .ok _ => .mismatched
      | .error fault => fault
  | .broken whenRead _ => whenRead
  | .null | .bool _ | .array _ _ | .object _ _ => .mismatched

/-- A truth value. -/
def readBool : Outline → Except Fault Bool
  | .bool value => .ok value
  | outline => .error outline.misfit

/-- A natural number below a bound. -/
def readNatural (bound : Nat) : Outline → Except Fault Nat
  | .number numeral =>
      match numeral.natural? with
      | some value =>
          if value < bound then .ok value else .error (misfit (.number numeral))
      | none => .error (misfit (.number numeral))
  | outline => .error outline.misfit

/-- A natural number of thirty-two bits. -/
def readHalfWord (outline : Outline) : Except Fault UInt32 :=
  (outline.readNatural (1 <<< 32)).map UInt32.ofNat

/-- A natural number of sixty-four bits. -/
def readWord (outline : Outline) : Except Fault UInt64 :=
  (outline.readNatural (1 <<< 64)).map UInt64.ofNat

/-- A number of the thirty-two bit format. -/
def readSingle : Outline → Except Fault Binary.Single
  | .number numeral =>
      match numeral.single? with
      | some value => .ok value
      | none => .error .malformed
  | outline => .error outline.misfit

/-- A text. -/
def readText : Outline → Except Fault String
  | .text quoted => quoted.content
  | outline => .error outline.misfit

/-- What a text stands for. -/
def readParsed {α : Type} (parse : String → Option α) (outline : Outline) : Except Fault α := do
  let text ← outline.readText
  match parse text with
  | some value => pure value
  | none => .error .mismatched

/-- A value or null. -/
def readOptional {α : Type} (read : Outline → Except Fault α) :
    Outline → Except Fault (Option α)
  | .null => .ok none
  | outline => (read outline).map some

/-- A list of values. -/
def readList {α : Type} (read : Outline → Except Fault α) : Outline → Except Fault (List α)
  | .array items ending => do
      let values ← items.mapM read
      requireClosed ending
      pure values
  | outline => .error outline.misfit

end Outline

end CoinSelection.Json
