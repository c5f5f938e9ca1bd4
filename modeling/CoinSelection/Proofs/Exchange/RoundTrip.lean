import CoinSelection.Exchange.Selection
import CoinSelection.Exchange.Utxo
import CoinSelection.Proofs.Json.Record

/-!
# Reading outputs, filters and responses back

A response, an output and a filter are read back from the text that is written
for them.  None of them holds a number of the thirty-two bit format, so nothing
is lost on the way: neither the characters of a descriptor nor the absence of
an optional field.
-/

namespace CoinSelection

open Json

/-! ## Values without parts -/

theorem carries_halfWord (value : UInt32) :
    (halfWordToJson value).Carries Outline.readHalfWord value := by
  have word := (Value.Carries.natural value.toNat_lt).map UInt32.ofNat
  rwa [UInt32.ofNat_toNat] at word

theorem carries_word (value : UInt64) : (wordToJson value).Carries Outline.readWord value := by
  have word := (Value.Carries.natural value.toNat_lt).map UInt64.ofNat
  rwa [UInt64.ofNat_toNat] at word

theorem AssetId.carries_toJson (asset : AssetId) : asset.toJson.Carries AssetId.ofJson asset :=
  .parsed (by simp [Except.toOption])

theorem Txid.carries_toJson (txid : Txid) : txid.toJson.Carries Txid.ofJson txid :=
  .parsed (by simp [Except.toOption])

theorem OutPoint.carries_toJson (outpoint : OutPoint) :
    outpoint.toJson.Carries OutPoint.ofJson outpoint :=
  .parsed outpoint.parse_display

theorem carries_script (script : List UInt8) :
    (scriptToJson script).Carries scriptOfJson script :=
  .parsed (by simp [Except.toOption])

/-! ## Optional values -/

theorem carries_optionalHalfWord (value : Option UInt32) :
    (Value.optional halfWordToJson value).Carries
      (Outline.readOptional Outline.readHalfWord) value :=
  .optional carries_halfWord (fun _ found => by cases found) value

theorem carries_optionalWord (value : Option UInt64) :
    (Value.optional wordToJson value).Carries (Outline.readOptional Outline.readWord) value :=
  .optional carries_word (fun _ found => by cases found) value

theorem carries_optionalText (text : Option String) :
    (Value.optional .text text).Carries (Outline.readOptional Outline.readText) text :=
  .optional .text (fun _ found => by cases found) text

theorem carries_optionalAsset (asset : Option AssetId) :
    (Value.optional AssetId.toJson asset).Carries (Outline.readOptional AssetId.ofJson) asset :=
  .optional AssetId.carries_toJson (fun _ found => by cases found) asset

/-! ## Records -/

open Record

theorem Filter.carries_toJson (filter : Filter) : filter.toJson.Carries Filter.ofJson filter := by
  apply Follows.object (by decide)
  apply Follows.optional (carries_halfWord filter.minConfirmations)
  apply Follows.optional (carries_optionalHalfWord filter.tipHeight)
  apply Follows.optional (carries_optionalAsset filter.targetAsset)
  exact .done

theorem Utxo.carries_toJson (utxo : Utxo) : utxo.toJson.Carries Utxo.ofJson utxo := by
  apply Follows.object (by decide)
  apply Follows.required utxo.outpoint.carries_toJson
  apply Follows.required (carries_word utxo.amount)
  apply Follows.optional (carries_script utxo.scriptPubkey)
  apply Follows.optional (carries_optionalText utxo.descriptor)
  apply Follows.optional (carries_optionalHalfWord utxo.confirmationHeight)
  apply Follows.optional (carries_word utxo.satisfactionWeight)
  apply Follows.optional (carries_optionalAsset utxo.asset)
  exact .done

/-- A field that is written only if it has a value may be missing where the
record has none. -/
theorem Entry.follows_given {α ρ : Type} {name : String} {write : α → Value}
    {read : Outline → Except Fault (Option α)} {put : ρ → Option α → ρ}
    {fields : List (Record.Field ρ)} {record final : ρ} {members : List (String × Value)}
    {value : Option α} (carries : (Value.optional write value).Carries read value)
    (absent : put record none = record)
    (others : Follows fields (put record value) members final) :
    Follows (.optional name read put :: fields) record (given name write value ++ members)
      final := by
  cases value with
  | none =>
      rw [absent] at others
      exact .omitted rfl others
  | some value => exact .optional carries others

theorem Entry.carries_toJson (entry : Entry) : entry.toJson.Carries Entry.ofJson entry := by
  apply Follows.object (by decide)
  simp only [List.append_assoc, List.cons_append, List.nil_append]
  apply Follows.required entry.txid.carries_toJson
  apply Follows.required (carries_halfWord entry.vout)
  apply Follows.required (carries_word entry.amount)
  apply follows_given (carries_optionalText entry.descriptor) rfl
  apply follows_given (carries_optionalWord entry.maxInputScriptSize) rfl
  apply follows_given (carries_optionalWord entry.maxWitnessSize) rfl
  apply follows_given (carries_optionalHalfWord entry.confirmationHeight) rfl
  rw [← List.append_nil (given "asset" AssetId.toJson entry.asset)]
  apply follows_given (carries_optionalAsset entry.asset) rfl
  exact .done

theorem SelectionResponse.carries_toJson (response : SelectionResponse) :
    response.toJson.Carries SelectionResponse.ofJson response := by
  apply Follows.object (by decide)
  apply Follows.required (.list Entry.carries_toJson response.entries)
  apply Follows.required (carries_word response.selectedAmount)
  apply Follows.required (carries_word response.feeAmount)
  apply Follows.required (carries_word response.inputFeeAmount)
  exact .done

/-! ## Requests -/

/-- The text of a request that leaves options and filter at their defaults. -/
def SelectionRequest.plainText (entries : List Entry) (targetAmount : UInt64) : String :=
  (Value.object
    [("utxos", .list Entry.toJson entries), ("targetAmount", wordToJson targetAmount)]).render

theorem SelectionRequest.requireJson_plainText (entries : List Entry) (targetAmount : UInt64) :
    requireJson SelectionRequest.ofJson (plainText entries targetAmount) =
      .ok { entries, targetAmount } := by
  have carries : (Value.object [("utxos", .list Entry.toJson entries),
      ("targetAmount", wordToJson targetAmount)]).Carries SelectionRequest.ofJson
        { entries, targetAmount } := by
    apply Follows.object (by decide)
    apply Follows.required (.list Entry.carries_toJson entries)
    apply Follows.required (carries_word targetAmount)
    exact .omitted rfl (.omitted rfl .done)
  rw [requireJson, plainText, carries.parse_render]

/-! ## Round trips -/

/-- Whoever reads the answer to a request gets the response that it was built
from. -/
theorem requireJson_response (response : SelectionResponse) :
    requireJson SelectionResponse.ofJson response.toJson.render = .ok response := by
  rw [requireJson, response.carries_toJson.parse_render]

/-- Every response, output and filter is read back from its text.  In
particular, to answer the text of a request and to read the answer is the same
as to answer the request: both fail alike, and when they succeed the response
that is read is the one that was written. -/
theorem records_read_back :
    (∀ response : SelectionResponse,
      parse SelectionResponse.ofJson response.toJson.render = .ok response) ∧
    (∀ utxo : Utxo, parse Utxo.ofJson utxo.toJson.render = .ok utxo) ∧
    (∀ filter : Filter, parse Filter.ofJson filter.toJson.render = .ok filter) ∧
    ∀ (source : RandomSource) (text : String) (weightOf? : String → Option UInt64),
      (do
        let answer ← answerSelection source text weightOf?
        Draw.ofOutcome (requireJson SelectionResponse.ofJson answer)) =
      (do
        let request ← Draw.ofOutcome (requireJson SelectionRequest.ofJson text)
        request.answer source weightOf?) := by
  refine ⟨fun response => response.carries_toJson.parse_render,
    fun utxo => utxo.carries_toJson.parse_render,
    fun filter => filter.carries_toJson.parse_render, ?_⟩
  intro source text weightOf?
  have read (response : SelectionResponse) :
      Draw.ofOutcome (requireJson SelectionResponse.ofJson response.toJson.render) =
        pure response := by
    rw [requireJson_response]
    rfl
  simp only [answerSelection, bind_assoc, pure_bind, read, bind_pure]

end CoinSelection
