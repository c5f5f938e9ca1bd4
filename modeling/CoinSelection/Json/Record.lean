import CoinSelection.Json.Outline

/-!
# Records

A record is written as an object, and read from an object or from an array.
In an object every field stands at most once, and names that are not those of
fields are skipped.  An array holds the fields in their order, and optional
ones at its end may be missing.

Fields are read from left to right, and the first fault is the fault of the
record; that a field is missing shows at the end.
-/

namespace CoinSelection.Json.Record

/-! ## Fields -/

/-- A field of a record. -/
structure Field (ρ : Type) where
  name : String
  isRequired : Bool
  /-- Put the value of the field into a record. -/
  read : ρ → Outline → Except Fault ρ

namespace Field

/-- A field whose value has to be given. -/
def required {ρ α : Type} (name : String) (read : Outline → Except Fault α)
    (put : ρ → α → ρ) : Field ρ :=
  ⟨name, true, fun record outline => (read outline).map (put record)⟩

/-- A field that has a value also if none is given. -/
def optional {ρ α : Type} (name : String) (read : Outline → Except Fault α)
    (put : ρ → α → ρ) : Field ρ :=
  ⟨name, false, fun record outline => (read outline).map (put record)⟩

end Field

/-! ## Reading -/

/-- Read the members of an object into a record.  `given` are the names that
have been met. -/
def readMembers {ρ : Type} (fields : List (Field ρ)) (ending : Option Fault) :
    List String → ρ → List (Quoted × Outline) → Except Fault ρ
  | given, record, [] => do
      requireClosed ending
      if fields.all fun field => !field.isRequired || given.contains field.name then pure record
      else .error .mismatched
  | given, record, (written, value) :: rest => do
      let name ← written.content
      match fields.find? fun field => field.name = name with
      | none => do
          value.skip
          readMembers fields ending given record rest
      | some field =>
          if given.contains name then .error .mismatched
          else do
            let next ← field.read record value
            readMembers fields ending (name :: given) next rest

/-- Read the items of an array into a record. -/
def readItems {ρ : Type} (ending : Option Fault) :
    ρ → List (Field ρ) → List Outline → Except Fault ρ
  | record, [], [] => do
      requireClosed ending
      pure record
  | _, [], _ :: _ => .error .malformed
  | record, fields, [] => do
      requireClosed ending
      if fields.any Field.isRequired then .error .mismatched else pure record
  | record, field :: fields, item :: rest => do
      let next ← field.read record item
      readItems ending next fields rest

/-- Read a record.  Fields that are not given keep the value they have in
`blank`. -/
def read {ρ : Type} (fields : List (Field ρ)) (blank : ρ) : Outline → Except Fault ρ
  | .object members ending => readMembers fields ending [] blank members
  | .array items ending => readItems ending blank fields items
  | outline => .error outline.misfit

end CoinSelection.Json.Record
