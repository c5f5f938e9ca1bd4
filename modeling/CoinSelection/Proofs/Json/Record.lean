import CoinSelection.Json.Record
import CoinSelection.Proofs.Json.Reader
import CoinSelection.Proofs.Lists

/-!
# Reading records back

A value carries an answer if a reader finds the answer in its text.  Scalars,
optional values and lists carry what they are written for.  So do records: an
object carries the record that its members fill in, if they follow the fields
one by one and leave out none but optional ones.
-/

namespace CoinSelection.Json

variable {α β ρ : Type}

/-! ## What a value carries -/

/-- A reader finds an answer in the text of a value. -/
def Value.Carries (value : Value) (read : Outline → Except Fault α) (answer : α) : Prop :=
  ∃ outline, value.Reads outline ∧ read outline = .ok answer

namespace Value.Carries

theorem parse_render {value : Value} {read : Outline → Except Fault α} {answer : α}
    (carries : value.Carries read answer) : parse read value.render = .ok answer := by
  rcases carries with ⟨outline, reads, found⟩
  rw [reads.parse_render, found]

theorem map {value : Value} {read : Outline → Except Fault α} {answer : α}
    (carries : value.Carries read answer) (convert : α → β) :
    value.Carries (fun outline => (read outline).map convert) (convert answer) := by
  rcases carries with ⟨outline, reads, found⟩
  exact ⟨outline, reads, congrArg (Except.map convert) found⟩

theorem text (value : String) : (Value.text value).Carries Outline.readText value := by
  refine ⟨_, .text value, ?_⟩
  rw [Outline.readText, Quoted.content_ofText, String.ofList_toList]

/-- A text carries whatever is parsed from it. -/
theorem parsed {parse : String → Option α} {text : String} {answer : α}
    (parses : parse text = some answer) :
    (Value.text text).Carries (Outline.readParsed parse) answer := by
  rcases Carries.text text with ⟨outline, reads, found⟩
  refine ⟨outline, reads, ?_⟩
  rw [Outline.readParsed, found]
  simp only [bind, Except.bind, parses]
  rfl

theorem natural {value bound : Nat} (small : value < bound) :
    (Value.natural value).Carries (Outline.readNatural bound) value := by
  refine ⟨_, .natural value, ?_⟩
  simp [Outline.readNatural, small]

/-- An optional value carries itself, if null is not mistaken for a value. -/
theorem optional {write : α → Value} {read : Outline → Except Fault α}
    (each : ∀ value, (write value).Carries read value) (notNull : ∀ value, read .null ≠ .ok value)
    (value : Option α) :
    (Value.optional write value).Carries (Outline.readOptional read) value := by
  cases value with
  | none => exact ⟨.null, .null, rfl⟩
  | some value =>
      rcases each value with ⟨outline, reads, found⟩
      refine ⟨outline, reads, ?_⟩
      cases outline with
      | null => exact absurd found (notNull value)
      | _ => simp [Outline.readOptional, found, Except.map]

/-- A list carries what its items carry. -/
theorem list {write : α → Value} {read : Outline → Except Fault α}
    (each : ∀ value, (write value).Carries read value) (values : List α) :
    (Value.list write values).Carries (Outline.readList read) values := by
  choose outline reads found using each
  have items : List.Forall₂ Reads (values.map write) (values.map outline) := by
    rw [List.forall₂_map_left_iff, List.forall₂_map_right_iff, List.forall₂_same]
    exact fun value _ => reads value
  have answers : (values.map outline).mapM read = .ok values := by
    rw [mapM_eq_ok_iff, List.forall₂_map_left_iff, List.forall₂_same]
    exact fun value _ => found value
  refine ⟨_, .array items, ?_⟩
  rw [Outline.readList, answers]
  rfl

end Value.Carries

/-! ## Members that follow the fields -/

namespace Record

/-- Members fill in a record field by field, in the order of the fields. -/
inductive Follows : List (Field ρ) → ρ → List (String × Value) → ρ → Prop
  | done {record : ρ} : Follows [] record [] record
  | given {field : Field ρ} {fields : List (Field ρ)} {record next final : ρ} {value : Value}
      {members : List (String × Value)} (carries : value.Carries (field.read record) next)
      (others : Follows fields next members final) :
      Follows (field :: fields) record ((field.name, value) :: members) final
  | omitted {field : Field ρ} {fields : List (Field ρ)} {record final : ρ}
      {members : List (String × Value)} (notRequired : field.isRequired = false)
      (others : Follows fields record members final) :
      Follows (field :: fields) record members final

namespace Follows

/-- The fields that are still to be filled in, after the names in `given` have
been met. -/
structure Pending (all fields : List (Field ρ)) (given : List String) : Prop where
  subset : fields ⊆ all
  distinct : (fields.map Field.name).Nodup
  fresh : ∀ field ∈ fields, field.name ∉ given
  complete : ∀ field ∈ all, field.isRequired = true → field ∈ fields ∨ field.name ∈ given

namespace Pending

theorem start {fields : List (Field ρ)} (distinct : (fields.map Field.name).Nodup) :
    Pending fields fields [] where
  subset := List.Subset.refl fields
  distinct := distinct
  fresh := fun _ _ => List.not_mem_nil
  complete := fun _ member _ => Or.inl member

variable {all fields : List (Field ρ)} {field : Field ρ} {given : List String}

theorem after_member (pending : Pending all (field :: fields) given) :
    Pending all fields (field.name :: given) := by
  have distinct := List.nodup_cons.mp pending.distinct
  constructor
  · exact (List.cons_subset.mp pending.subset).2
  · exact distinct.2
  · intro other member met
    rcases List.mem_cons.mp met with same | met
    · exact distinct.1 (same ▸ List.mem_map_of_mem member)
    · exact pending.fresh other (List.mem_cons_of_mem field member) met
  · intro other member required
    rcases pending.complete other member required with later | met
    · rcases List.mem_cons.mp later with rfl | later
      · exact Or.inr List.mem_cons_self
      · exact Or.inl later
    · exact Or.inr (List.mem_cons_of_mem field.name met)

theorem after_omission (pending : Pending all (field :: fields) given)
    (notRequired : field.isRequired = false) : Pending all fields given := by
  constructor
  · exact (List.cons_subset.mp pending.subset).2
  · exact (List.nodup_cons.mp pending.distinct).2
  · exact fun other member => pending.fresh other (List.mem_cons_of_mem field member)
  · intro other member required
    rcases pending.complete other member required with later | met
    · rcases List.mem_cons.mp later with rfl | later
      · exact absurd required (by simp [notRequired])
      · exact Or.inl later
    · exact Or.inr met

/-- Once no field is left, no required one is missing. -/
theorem all_given (pending : Pending all [] given) :
    (all.all fun field => !field.isRequired || given.contains field.name) = true := by
  rw [List.all_eq_true]
  intro field member
  cases required : field.isRequired with
  | false => rfl
  | true =>
      rcases pending.complete field member required with later | met
      · cases later
      · simpa using met

end Pending

/-- The members that follow pending fields are read into the record. -/
theorem readMembers_eq {all fields : List (Field ρ)} (distinct : (all.map Field.name).Nodup)
    {given : List String} (pending : Pending all fields given) {record final : ρ}
    {members : List (String × Value)} (follows : Follows fields record members final) :
    ∃ entries, List.Forall₂ Value.Reads.Member members entries ∧
      readMembers all none given record entries = .ok final := by
  induction follows generalizing given with
  | done =>
      refine ⟨[], .nil, ?_⟩
      rw [readMembers, pending.all_given]
      rfl
  | @given field fields record next final value members carries others ih =>
      rcases carries with ⟨outline, reads, found⟩
      rcases ih pending.after_member with ⟨entries, rest, read⟩
      have lookup := find?_of_nodup_keys distinct (pending.subset List.mem_cons_self)
      have fresh := pending.fresh field List.mem_cons_self
      refine ⟨(.ofText field.name.toList, outline) :: entries, .cons ⟨rfl, reads⟩ rest, ?_⟩
      rw [readMembers, Quoted.content_ofText, String.ofList_toList]
      simp [bind, Except.bind, lookup, fresh, found, read]
  | omitted notRequired others ih => exact ih (pending.after_omission notRequired)

/-- An object carries the record that its members fill in. -/
theorem object {fields : List (Field ρ)} (distinct : (fields.map Field.name).Nodup)
    {blank final : ρ} {members : List (String × Value)}
    (follows : Follows fields blank members final) :
    (Value.object members).Carries (Record.read fields blank) final := by
  rcases readMembers_eq distinct (.start distinct) follows with ⟨entries, reads, found⟩
  exact ⟨_, .object reads, found⟩

/-! ## Fields with a value -/

section Fields

variable {name : String} {read : Outline → Except Fault α} {put : ρ → α → ρ}
  {fields : List (Field ρ)} {record final : ρ} {members : List (String × Value)}

theorem required {value : Value} {answer : α} (carries : value.Carries read answer)
    (others : Follows fields (put record answer) members final) :
    Follows (.required name read put :: fields) record ((name, value) :: members) final :=
  given (carries.map (put record)) others

theorem optional {value : Value} {answer : α} (carries : value.Carries read answer)
    (others : Follows fields (put record answer) members final) :
    Follows (.optional name read put :: fields) record ((name, value) :: members) final :=
  given (carries.map (put record)) others

end Fields

end Follows

end Record

end CoinSelection.Json
