import CoinSelection.Binary.Shortest
import CoinSelection.Json.Quoted

/-!
# Values and their text

A value is written without blanks.  The members of an object keep the order in
which they are given.
-/

namespace CoinSelection.Json

/-- A value that can be written. -/
inductive Value
  | null
  | bool (value : Bool)
  | integer (value : Int)
  /-- A number of the thirty-two bit format; null if it is not finite. -/
  | single (value : Binary.Single)
  | text (value : String)
  | array (items : List Value)
  | object (members : List (String × Value))

namespace Value

/-- A natural number. -/
def natural (value : Nat) : Value :=
  .integer value

/-- A value or null. -/
def optional {α : Type} (write : α → Value) : Option α → Value
  | none => .null
  | some value => write value

/-- A list of values. -/
def list {α : Type} (write : α → Value) (values : List α) : Value :=
  .array (values.map write)

/-! ## Text -/

/-- The digits of an integer, after its sign. -/
def writeInteger : Int → List Char
  | .ofNat value => Nat.toDigits 10 value
  | .negSucc value => '-' :: Nat.toDigits 10 (value + 1)

/-- The text of a number of the thirty-two bit format. -/
def writeSingle (value : Binary.Single) : List Char :=
  match value.value with
  | .finite negative units => (Binary.Layout.data.ofFinite negative units).toList
  | _ => ['n', 'u', 'l', 'l']

/-- What stands in front of an entry of a list. -/
def separator (first : Bool) : List Char :=
  if first then [] else [',']

mutual

/-- The text of a value. -/
def write : Value → List Char
  | .null => ['n', 'u', 'l', 'l']
  | .bool true => ['t', 'r', 'u', 'e']
  | .bool false => ['f', 'a', 'l', 's', 'e']
  | .integer value => writeInteger value
  | .single value => writeSingle value
  | .text value => writeQuoted value.toList
  | .array items => '[' :: writeItems true items
  | .object members => '\x7b' :: writeMembers true members
termination_by structural value => value

/-- The text of the items of an array, with its closing bracket. -/
def writeItems (first : Bool) : List Value → List Char
  | [] => [']']
  | item :: rest => separator first ++ write item ++ writeItems false rest
termination_by structural items => items

/-- The text of the members of an object, with its closing bracket. -/
def writeMembers (first : Bool) : List (String × Value) → List Char
  | [] => ['\x7d']
  | (name, value) :: rest =>
      separator first ++ writeQuoted name.toList ++ ':' :: write value ++ writeMembers false rest
termination_by structural members => members

end

/-- The text of a value. -/
def render (value : Value) : String :=
  String.ofList value.write

end Value

end CoinSelection.Json
