import CoinSelection.Exchange.Entry
import CoinSelection.Exchange.Filter
import CoinSelection.Exchange.Options
import CoinSelection.Json.Reader
import CoinSelection.Select

/-!
# Selection, from text to text

A request lists entries and the amount to pay.  Entries of one outpoint are
refused before anything is selected.  The response repeats the entries of the
selected outputs, in the order of the request.
-/

namespace CoinSelection

open Json

/-! ## Requests -/

/-- A request to select outputs. -/
structure SelectionRequest where
  entries : List Entry := []
  targetAmount : UInt64 := 0
  options : Options := {}
  filter : Filter := {}
  deriving DecidableEq

namespace SelectionRequest

/-- The fields of a request. -/
def fields : List (Record.Field SelectionRequest) :=
  [.required "utxos" (Outline.readList Entry.ofJson)
      fun request entries => { request with entries },
    .required "targetAmount" Outline.readWord
      fun request targetAmount => { request with targetAmount },
    .optional "options" Options.ofJson
      fun request options => { request with options },
    .optional "filter" Filter.ofJson
      fun request filter => { request with filter }]

/-- Read a request. -/
def ofJson : Outline → Except Fault SelectionRequest :=
  Record.read fields {}

end SelectionRequest

/-! ## Responses -/

/-- The entries of the selected outputs, and their totals. -/
structure SelectionResponse where
  entries : List Entry := []
  selectedAmount : UInt64 := 0
  feeAmount : UInt64 := 0
  inputFeeAmount : UInt64 := 0
  deriving DecidableEq

namespace SelectionResponse

/-- Write a response. -/
def toJson (response : SelectionResponse) : Value :=
  .object
    [("utxos", .list Entry.toJson response.entries),
      ("selectedAmount", wordToJson response.selectedAmount),
      ("feeAmount", wordToJson response.feeAmount),
      ("utxoFeeAmount", wordToJson response.inputFeeAmount)]

/-- The fields of a response. -/
def fields : List (Record.Field SelectionResponse) :=
  [.required "utxos" (Outline.readList Entry.ofJson)
      fun response entries => { response with entries },
    .required "selectedAmount" Outline.readWord
      fun response selectedAmount => { response with selectedAmount },
    .required "feeAmount" Outline.readWord
      fun response feeAmount => { response with feeAmount },
    .required "utxoFeeAmount" Outline.readWord
      fun response inputFeeAmount => { response with inputFeeAmount }]

/-- Read a response. -/
def ofJson : Outline → Except Fault SelectionResponse :=
  Record.read fields {}

/-- The response for a selection from entries. -/
def ofSelection (entries : List Entry) (selection : Selection) : SelectionResponse :=
  { entries := selection.selected.filterMap fun utxo =>
      entries.find? fun entry => entry.outpoint = utxo.outpoint
    selectedAmount := UInt64.ofNat selection.selectedValue
    feeAmount := UInt64.ofNat selection.excessValue
    inputFeeAmount := UInt64.ofNat selection.inputFees }

end SelectionResponse

/-! ## Answers -/

/-- The first outpoint of a list that stands before its place already. -/
def firstRepeated? : List OutPoint → List OutPoint → Option OutPoint
  | _, [] => none
  | earlier, outpoint :: rest =>
      if outpoint ∈ earlier then some outpoint else firstRepeated? (outpoint :: earlier) rest

/-- Refuse entries of one outpoint. -/
def requireDistinct (entries : List Entry) : Outcome Unit :=
  match firstRepeated? [] (entries.map Entry.outpoint) with
  | some outpoint => refuse (.duplicateUtxo outpoint)
  | none => .ok ()

/-- The value of a text, or the refusal of the text. -/
def requireJson {α : Type} (read : Outline → Except Fault α) (text : String) : Outcome α :=
  match Json.parse read text with
  | .ok value => .ok value
  | .error fault => refuse (.json fault)

/-- Answer a request. -/
def SelectionRequest.answer (source : RandomSource) (request : SelectionRequest)
    (weightOf? : String → Option UInt64 := Descriptor.weight?) : Draw SelectionResponse := do
  let pool ← Draw.ofOutcome (request.entries.mapM fun entry => entry.toUtxo weightOf?)
  Draw.ofOutcome (requireDistinct request.entries)
  let selection ←
    select source request.targetAmount.toNat pool request.filter request.options
  pure (.ofSelection request.entries selection)

/-- Answer the text of a request with the text of a response. -/
def answerSelection (source : RandomSource) (text : String)
    (weightOf? : String → Option UInt64 := Descriptor.weight?) : Draw String := do
  let request ← Draw.ofOutcome (requireJson SelectionRequest.ofJson text)
  let response ← request.answer source weightOf?
  pure response.toJson.render

/-! ## Which requests are accepted -/

theorem firstRepeated?_eq_none_iff {earlier outpoints : List OutPoint} :
    firstRepeated? earlier outpoints = none ↔
      outpoints.Nodup ∧ ∀ outpoint ∈ outpoints, outpoint ∉ earlier := by
  induction outpoints generalizing earlier with
  | nil => simp [firstRepeated?]
  | cons outpoint rest ih =>
      by_cases repeated : outpoint ∈ earlier
      · simp [firstRepeated?, repeated]
      · simp only [firstRepeated?, repeated, if_false, ih, List.nodup_cons, List.mem_cons,
          forall_eq_or_imp, not_or, not_false_eq_true, true_and]
        constructor
        · rintro ⟨distinct, fresh⟩
          exact ⟨⟨fun member => (fresh outpoint member).1 rfl, distinct⟩,
            fun other member => (fresh other member).2⟩
        · rintro ⟨⟨absent, distinct⟩, fresh⟩
          exact ⟨distinct, fun other member =>
            ⟨fun same => absent (same ▸ member), fresh other member⟩⟩

/-- Entries are accepted if and only if their outpoints are distinct. -/
theorem requireDistinct_eq_ok_iff {entries : List Entry} :
    requireDistinct entries = .ok () ↔ (entries.map Entry.outpoint).Nodup := by
  have characterization :
      firstRepeated? [] (entries.map Entry.outpoint) = none ↔
        (entries.map Entry.outpoint).Nodup ∧ ∀ outpoint ∈ entries.map Entry.outpoint,
          outpoint ∉ ([] : List OutPoint) :=
    firstRepeated?_eq_none_iff
  unfold requireDistinct
  cases found : firstRepeated? [] (entries.map Entry.outpoint) with
  | none => simpa [found] using characterization
  | some outpoint => simpa [found, refuse] using characterization

end CoinSelection
