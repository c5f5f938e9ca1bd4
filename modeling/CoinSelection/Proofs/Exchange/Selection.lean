import CoinSelection.Proofs.Exchange.RoundTrip
import CoinSelection.Proofs.Funding

/-!
# Answering the text of a request

Once the text of a request is read and its entries are outputs, there are two
things that can go wrong: two entries have one outpoint, and then the first that
repeats one is named before anything is selected; or the selection from the
outputs fails, and then its failure is the answer.  Otherwise the response
repeats the entries of the selected outputs as they were in the request.

What a descriptor weighs is taken from any function that reads descriptors.
-/

namespace CoinSelection

open Checked Outcome

/-! ## Repeated outpoints -/

/-- An outpoint is the first of a list that stands before its place already. -/
def FirstRepeated (outpoints : List OutPoint) (outpoint : OutPoint) : Prop :=
  ∃ earlier rest, outpoints = earlier ++ outpoint :: rest ∧ earlier.Nodup ∧ outpoint ∈ earlier

namespace FirstRepeated

theorem not_nodup {outpoints : List OutPoint} {outpoint : OutPoint}
    (repeated : FirstRepeated outpoints outpoint) : ¬ outpoints.Nodup := by
  rcases repeated with ⟨earlier, rest, rfl, -, met⟩
  intro distinct
  exact List.disjoint_of_nodup_append distinct met List.mem_cons_self

/-- No list has two first repeated outpoints. -/
theorem unique {outpoints : List OutPoint} {one other : OutPoint}
    (first : FirstRepeated outpoints one) (second : FirstRepeated outpoints other) :
    one = other := by
  rcases first with ⟨earlier, rest, rfl, distinct, met⟩
  rcases second with ⟨before, after, parts, distinctBefore, metBefore⟩
  rcases List.append_eq_append_iff.mp parts with ⟨between, split, tail⟩ | ⟨between, split, tail⟩
  · cases between with
    | nil => exact (List.cons.inj tail).1
    | cons next between =>
        obtain ⟨rfl, -⟩ := List.cons.inj tail
        rw [split] at distinctBefore
        exact (List.disjoint_of_nodup_append distinctBefore met List.mem_cons_self).elim
  · cases between with
    | nil => exact (List.cons.inj tail).1.symm
    | cons next between =>
        obtain ⟨rfl, -⟩ := List.cons.inj tail
        rw [split] at distinct
        exact (List.disjoint_of_nodup_append distinct metBefore List.mem_cons_self).elim

end FirstRepeated

/-- What is found has been met, and nothing before it had. -/
theorem firstRepeated_of_found {met outpoints : List OutPoint} {outpoint : OutPoint}
    (distinct : met.Nodup) (found : firstRepeated? met outpoints = some outpoint) :
    FirstRepeated (met.reverse ++ outpoints) outpoint := by
  induction outpoints generalizing met with
  | nil => cases found
  | cons first outpoints ih =>
      rw [firstRepeated?] at found
      by_cases repeated : first ∈ met
      · rw [if_pos repeated] at found
        obtain rfl := Option.some.inj found
        exact ⟨met.reverse, outpoints, rfl, List.nodup_reverse.mpr distinct,
          List.mem_reverse.mpr repeated⟩
      · rw [if_neg repeated] at found
        have later := ih (List.nodup_cons.mpr ⟨repeated, distinct⟩) found
        rwa [List.reverse_cons, List.append_assoc, List.singleton_append] at later

/-- Entries are refused for the first outpoint that repeats one. -/
theorem requireDistinct_of_firstRepeated {entries : List Entry} {outpoint : OutPoint}
    (repeated : FirstRepeated (entries.map Entry.outpoint) outpoint) :
    requireDistinct entries = refuse (.duplicateUtxo outpoint) := by
  cases found : firstRepeated? [] (entries.map Entry.outpoint) with
  | none => exact absurd (firstRepeated?_eq_none_iff.mp found).1 repeated.not_nodup
  | some other =>
      have same := repeated.unique (firstRepeated_of_found List.nodup_nil found)
      rw [requireDistinct, found, same]

/-- Where two entries have one outpoint there is a first one to name. -/
theorem exists_firstRepeated {outpoints : List OutPoint} (shared : ¬ outpoints.Nodup) :
    ∃ outpoint, FirstRepeated outpoints outpoint := by
  cases found : firstRepeated? [] outpoints with
  | none => exact absurd (firstRepeated?_eq_none_iff.mp found).1 shared
  | some outpoint => exact ⟨outpoint, firstRepeated_of_found List.nodup_nil found⟩

/-! ## Entries and their outputs -/

theorem Utxo.withDescriptor_keeps {utxo weighed : Utxo} {text : String}
    {weightOf? : String → Option UInt64}
    (weighs : utxo.withDescriptor text weightOf? = .ok weighed) :
    weighed.outpoint = utxo.outpoint ∧ weighed.amount = utxo.amount := by
  unfold withDescriptor at weighs
  cases weight : weightOf? text with
  | none =>
      rw [weight] at weighs
      cases weighs
  | some weight' =>
      rw [weight] at weighs
      cases weighs
      exact ⟨rfl, rfl⟩

theorem Utxo.withScriptSizes_keeps {utxo weighed : Utxo} {inputScriptSize witnessSize : Nat}
    (weighs : utxo.withScriptSizes inputScriptSize witnessSize = .ok weighed) :
    weighed.outpoint = utxo.outpoint ∧ weighed.amount = utxo.amount := by
  rcases bind_eq_ok_iff.mp weighs with ⟨weight, -, weighed_eq⟩
  cases weighed_eq
  exact ⟨rfl, rfl⟩

/-- The output of an entry has its outpoint and its amount, whatever it
weighs. -/
theorem Entry.toUtxo_keeps {entry : Entry} {weightOf? : String → Option UInt64} {utxo : Utxo}
    (converts : entry.toUtxo weightOf? = .ok utxo) :
    utxo.outpoint = entry.outpoint ∧ utxo.amount = entry.amount := by
  unfold toUtxo at converts
  cases descriptor : entry.descriptor with
  | none =>
      rw [descriptor] at converts
      rcases bind_eq_ok_iff.mp converts with ⟨weighed, weighs, utxo_eq⟩
      cases utxo_eq
      exact Utxo.withScriptSizes_keeps weighs
  | some text =>
      rw [descriptor] at converts
      rcases bind_eq_ok_iff.mp converts with ⟨weighed, weighs, utxo_eq⟩
      cases utxo_eq
      exact Utxo.withDescriptor_keeps weighs

/-- An entry describes an output, with the weight that is found for its
descriptor. -/
def Entry.Describes (weightOf? : String → Option UInt64) (entry : Entry) (utxo : Utxo) : Prop :=
  entry.toUtxo weightOf? = .ok utxo

/-- Looking up the outpoints of outputs finds the entries that describe them. -/
theorem filterMap_find?_eq {weightOf? : String → Option UInt64} {entries chosen : List Entry}
    {selected : List Utxo} (distinct : (entries.map Entry.outpoint).Nodup)
    (subset : chosen ⊆ entries) (each : List.Forall₂ (Entry.Describes weightOf?) chosen selected) :
    selected.filterMap (fun utxo => entries.find? fun entry => entry.outpoint = utxo.outpoint) =
      chosen := by
  induction each with
  | nil => rfl
  | @cons entry utxo chosen selected describes others ih =>
      rcases List.cons_subset.mp subset with ⟨member, subset⟩
      rw [List.filterMap_cons, (Entry.toUtxo_keeps describes).1,
        find?_of_nodup_keys distinct member, ih subset]

/-- The outputs of entries have the amounts of the entries. -/
theorem totalAmount_eq_sum {weightOf? : String → Option UInt64} {chosen : List Entry}
    {selected : List Utxo} (each : List.Forall₂ (Entry.Describes weightOf?) chosen selected) :
    totalAmount selected = (chosen.map fun entry => entry.amount.toNat).sum := by
  induction each with
  | nil => rfl
  | @cons entry utxo chosen selected describes others ih =>
      rw [totalAmount] at ih ⊢
      rw [List.map_cons, List.map_cons, List.sum_cons, List.sum_cons,
        (Entry.toUtxo_keeps describes).2, ih]

/-! ## Answers -/

/-- A selection fails for other reasons than entries that share an outpoint. -/
theorem select_ne_duplicateUtxo {source : RandomSource} {target : Nat} {pool : List Utxo}
    {filter : Filter} {options : Options} {drawn : Nat} (outpoint : OutPoint) :
    ((select source target pool filter options).run drawn).1 ≠
      refuse (.duplicateUtxo outpoint) := by
  intro refused
  obtain ⟨_, _, answered⟩ := answered_of_refuses (by simp) (Prod.ext refused rfl)
  generalize outcome_eq : refuse (.duplicateUtxo outpoint) = outcome at answered
  cases answered <;> cases outcome_eq

/-- A response repeats the entries of the selected outputs, in the order of the
request, and accounts for them. -/
structure SelectionRequest.Echoes (request : SelectionRequest)
    (weightOf? : String → Option UInt64) (selection : Selection) (response : SelectionResponse) :
    Prop where
  sublist : response.entries.Sublist request.entries
  /-- There is one entry for every selected output, and it describes that
  output. -/
  outputs : List.Forall₂ (Entry.Describes weightOf?) response.entries selection.selected
  selectedAmount_eq : response.selectedAmount.toNat =
    (response.entries.map fun entry => entry.amount.toNat).sum
  feeAmount_eq : 0 < request.targetAmount.toNat →
    request.targetAmount.toNat + response.feeAmount.toNat = response.selectedAmount.toNat
  inputFeeAmount_eq : response.inputFeeAmount.toNat = selection.inputFees

section Answers

variable {source : RandomSource} {request : SelectionRequest} {pool : List Utxo} {text : String}
  {weightOf? : String → Option UInt64} {drawn : Nat}

/-- Where no two entries share an outpoint, the response echoes the selection. -/
theorem echoes_ofSelection
    (describes : List.Forall₂ (Entry.Describes weightOf?) request.entries pool)
    (distinct : (request.entries.map Entry.outpoint).Nodup) {selection : Selection}
    (balanced : selection.Balanced request.targetAmount.toNat pool) :
    request.Echoes weightOf? selection (.ofSelection request.entries selection) := by
  rcases exists_sublist_of_forall₂ describes balanced.sublist with ⟨chosen, sublist, each⟩
  have entries_eq : (SelectionResponse.ofSelection request.entries selection).entries = chosen :=
    filterMap_find?_eq distinct sublist.subset each
  have selectedAmount_eq :
      (SelectionResponse.ofSelection request.entries selection).selectedAmount.toNat =
        selection.selectedValue :=
    UInt64.toNat_ofNat_of_lt' balanced.fits
  have feeAmount_eq : (SelectionResponse.ofSelection request.entries selection).feeAmount.toNat =
      selection.excessValue :=
    UInt64.toNat_ofNat_of_lt' balanced.excessValue_lt
  constructor
  · rwa [entries_eq]
  · rwa [entries_eq]
  · rw [selectedAmount_eq, balanced.selectedValue_eq, entries_eq, totalAmount_eq_sum each]
  · intro _
    rw [feeAmount_eq, selectedAmount_eq, balanced.excessValue_eq]
  · exact UInt64.toNat_ofNat_of_lt' (balanced.inputFees_le.trans_lt balanced.fits)

/-- The answer to a request whose entries are outputs, if no two of them share
an outpoint, is that of the selection. -/
theorem run_answerSelection
    (parses : requireJson SelectionRequest.ofJson text = .ok request)
    (converts : request.entries.mapM (fun entry => entry.toUtxo weightOf?) = .ok pool)
    (distinct : (request.entries.map Entry.outpoint).Nodup) :
    (answerSelection source text weightOf?).run drawn =
      Prod.map (Except.map fun selection =>
          (SelectionResponse.ofSelection request.entries selection).toJson.render) id
        ((select source request.targetAmount.toNat pool request.filter request.options).run
          drawn) := by
  have accepted := requireDistinct_eq_ok_iff.mpr distinct
  have answered : (request.answer source weightOf?).run drawn =
      Prod.map (Except.map (SelectionResponse.ofSelection request.entries)) id
        ((select source request.targetAmount.toNat pool request.filter request.options).run
          drawn) := by
    rw [SelectionRequest.answer, converts, Draw.run_ofOutcome_ok_bind, accepted,
      Draw.run_ofOutcome_ok_bind, Draw.run_bind_pure]
    rfl
  rw [answerSelection, parses, Draw.run_ofOutcome_ok_bind, Draw.run_bind_pure, answered]
  cases (select source request.targetAmount.toNat pool request.filter request.options).run
      drawn with
  | mk outcome later => cases outcome <;> rfl

theorem run_answerSelection_eq_error_iff
    (parses : requireJson SelectionRequest.ofJson text = .ok request)
    (converts : request.entries.mapM (fun entry => entry.toUtxo weightOf?) = .ok pool)
    (distinct : (request.entries.map Entry.outpoint).Nodup) {failure : Failure} {later : Nat} :
    (answerSelection source text weightOf?).run drawn = (.error failure, later) ↔
      (select source request.targetAmount.toNat pool request.filter request.options).run drawn =
        (.error failure, later) := by
  rw [run_answerSelection parses converts distinct]
  cases (select source request.targetAmount.toNat pool request.filter request.options).run
      drawn with
  | mk outcome last => cases outcome <;> simp [Except.map]

/-- Entries that share an outpoint are refused before anything is selected. -/
theorem run_answerSelection_of_firstRepeated
    (parses : requireJson SelectionRequest.ofJson text = .ok request)
    (converts : request.entries.mapM (fun entry => entry.toUtxo weightOf?) = .ok pool)
    {outpoint : OutPoint} (repeated : FirstRepeated (request.entries.map Entry.outpoint) outpoint) :
    (answerSelection source text weightOf?).run drawn =
      (refuse (.duplicateUtxo outpoint), drawn) := by
  have refused : (request.answer source weightOf?).run drawn =
      (refuse (.duplicateUtxo outpoint), drawn) := by
    rw [SelectionRequest.answer, converts, Draw.run_ofOutcome_ok_bind,
      requireDistinct_of_firstRepeated repeated]
    rfl
  rw [answerSelection, parses, Draw.run_ofOutcome_ok_bind, Draw.run_bind_of_error refused]
  rfl

/-- What the text of a request is answered, once it is read and its entries are
outputs.  The answer is a refusal of a repeated outpoint if and only if two
entries share one, and then it names the first entry whose outpoint stands
before it already.  Otherwise it fails exactly where the selection from the
outputs fails, with the same failure; and where there is a selection, the
answer is read back as a response that echoes it. -/
theorem answerSelection_echoes
    (parses : requireJson SelectionRequest.ofJson text = .ok request)
    (converts : request.entries.mapM (fun entry => entry.toUtxo weightOf?) = .ok pool)
    (source : RandomSource) (drawn : Nat) :
    ((∃ outpoint, ((answerSelection source text weightOf?).run drawn).1 =
        refuse (.duplicateUtxo outpoint)) ↔ ¬ (request.entries.map Entry.outpoint).Nodup) ∧
    (∀ outpoint, FirstRepeated (request.entries.map Entry.outpoint) outpoint →
      (answerSelection source text weightOf?).run drawn =
          (refuse (.duplicateUtxo outpoint), drawn) ∧
        (Error.duplicateUtxo outpoint).message? =
          some ("Generic error: Duplicate utxo in request: " ++ outpoint.display)) ∧
    ((request.entries.map Entry.outpoint).Nodup →
      (∀ failure later,
        (answerSelection source text weightOf?).run drawn = (.error failure, later) ↔
          (select source request.targetAmount.toNat pool request.filter request.options).run
            drawn = (.error failure, later)) ∧
      ∀ answer later,
        (answerSelection source text weightOf?).run drawn = (.ok answer, later) →
          ∃ selection response,
            (select source request.targetAmount.toNat pool request.filter request.options).run
              drawn = (.ok selection, later) ∧
            request.Echoes weightOf? selection response ∧ answer = response.toJson.render ∧
            requireJson SelectionResponse.ofJson answer = .ok response) := by
  have describes := mapM_eq_ok_iff.mp converts
  refine ⟨⟨?_, ?_⟩, ?_, ?_⟩
  · rintro ⟨outpoint, refused⟩ distinct
    have failed := (run_answerSelection_eq_error_iff parses converts distinct).mp
      (Prod.ext refused rfl)
    exact select_ne_duplicateUtxo outpoint (congrArg Prod.fst failed)
  · intro shared
    rcases exists_firstRepeated shared with ⟨outpoint, repeated⟩
    exact ⟨outpoint, by rw [run_answerSelection_of_firstRepeated parses converts repeated]⟩
  · intro outpoint repeated
    exact ⟨run_answerSelection_of_firstRepeated parses converts repeated, rfl⟩
  · intro distinct
    constructor
    · intro failure later
      exact run_answerSelection_eq_error_iff parses converts distinct
    · intro answer later finished
      rw [run_answerSelection parses converts distinct] at finished
      cases selected : (select source request.targetAmount.toNat pool request.filter
          request.options).run drawn with
      | mk outcome last =>
          rw [selected] at finished
          cases outcome with
          | error failure => cases finished
          | ok selection =>
              cases finished
              exact ⟨selection, _, rfl,
                echoes_ofSelection describes distinct (balanced_of_selects selected), rfl,
                requireJson_response _⟩

end Answers

/-! ## Two requests in full -/

/-- An output that one key spends. -/
def keyEntry : Entry where
  txid := ⟨Vector.replicate 32 0⟩
  vout := 0
  amount := 600
  descriptor := some "wpkh(0279be667ef9dcbbac55a06295ce870b07029bfcdb2dce28d959f2815b16f81798)"

/-- Another output of the same transaction. -/
def plainEntry : Entry where
  txid := ⟨Vector.replicate 32 0⟩
  vout := 1
  amount := 300

/-- The output of the first entry, with the weight of its descriptor. -/
def keyOutput : Utxo where
  outpoint := keyEntry.outpoint
  amount := 600
  descriptor := keyEntry.descriptor
  satisfactionWeight := 112

/-- The output of the second entry. -/
def plainOutput : Utxo where
  outpoint := plainEntry.outpoint
  amount := 300

/-- The two outputs at the default options, with the fees that these price. -/
def keyCandidates : List Candidate :=
  (Options.fees {} true).candidates 0 [keyOutput, plainOutput]

theorem toUtxo_keyEntry : keyEntry.toUtxo Descriptor.weight? = .ok keyOutput := by
  decide +kernel

theorem toUtxo_plainEntry : plainEntry.toUtxo Descriptor.weight? = .ok plainOutput := by
  decide +kernel

/-- The first output alone pays five hundred, without change and at no fee. -/
theorem select_keyOutput (source : RandomSource) (drawn : Nat) :
    (select source 500 [keyOutput, plainOutput] {} {}).run drawn =
      (.ok
        { selected := [keyOutput]
          selectedValue := 600
          excessValue := 100
          inputFees := 0
          algorithm := .branchAndBound },
        drawn) := by
  have prepared : prepare 500 [keyOutput, plainOutput] {} {} = .ok
      { candidates := keyCandidates
        target := 500
        strategy := .branchAndBound 204 (.knapsack defaultMinimumChange) } := by
    decide +kernel
  have searched : BranchAndBound.select 204 keyCandidates 500 = .ok (keyCandidates.take 1) := by
    rw [BranchAndBound.select, BranchAndBound.search,
      Candidate.largestFirst_of_sorted (by decide +kernel)]
    decide +kernel
  have totals : Selection.ofCandidates (keyCandidates.take 1) 500 .branchAndBound = .ok
      { selected := [keyOutput]
        selectedValue := 600
        excessValue := 100
        inputFees := 0
        algorithm := .branchAndBound } := by
    rw [Selection.ofCandidates, Selection.offeredOrder_of_sorted (by decide +kernel)]
    decide +kernel
  exact select_run_of_found (by decide +kernel) (by decide +kernel) (by decide) prepared searched
    totals drawn

/-- A repeated outpoint is named; and where there is none, the answer is read
back as a response that echoes the selection. -/
theorem answerSelection_echoes_twoEntries :
    (answerSelection (fun _ => 0)
        (SelectionRequest.plainText [plainEntry, keyEntry, plainEntry] 500)).run 0 =
        (refuse (.duplicateUtxo plainEntry.outpoint), 0) ∧
      ∃ selection response answer,
        (answerSelection (fun _ => 0)
          (SelectionRequest.plainText [keyEntry, plainEntry] 500)).run 0 = (.ok answer, 0) ∧
          answer = response.toJson.render ∧
          requireJson SelectionResponse.ofJson answer = .ok response ∧
          selection.selected = [keyOutput] ∧
            SelectionRequest.Echoes { entries := [keyEntry, plainEntry], targetAmount := 500 }
              Descriptor.weight? selection response := by
  constructor
  · have converts : [plainEntry, keyEntry, plainEntry].mapM
        (fun entry => entry.toUtxo Descriptor.weight?) =
          .ok [plainOutput, keyOutput, plainOutput] :=
      mapM_eq_ok_iff.mpr
        (.cons toUtxo_plainEntry (.cons toUtxo_keyEntry (.cons toUtxo_plainEntry .nil)))
    have answered := answerSelection_echoes (SelectionRequest.requireJson_plainText _ 500) converts
      (fun _ => 0) 0
    exact (answered.2.1 _ ⟨[plainEntry.outpoint, keyEntry.outpoint], [], rfl, by decide,
      by decide⟩).1
  · have converts : [keyEntry, plainEntry].mapM (fun entry => entry.toUtxo Descriptor.weight?) =
        .ok [keyOutput, plainOutput] :=
      mapM_eq_ok_iff.mpr (.cons toUtxo_keyEntry (.cons toUtxo_plainEntry .nil))
    have parses := SelectionRequest.requireJson_plainText [keyEntry, plainEntry] 500
    have distinct : ([keyEntry, plainEntry].map Entry.outpoint).Nodup := by decide
    have finished : (answerSelection (fun _ => 0)
        (SelectionRequest.plainText [keyEntry, plainEntry] 500)).run 0 = _ :=
      run_answerSelection parses converts distinct
    rw [show UInt64.toNat 500 = 500 from rfl, select_keyOutput] at finished
    rcases ((answerSelection_echoes parses converts (fun _ => 0) 0).2.2 distinct).2 _ _ finished
      with ⟨selection, response, selects, echoes, answer_eq, read⟩
    have selection_eq := (select_keyOutput (fun _ => 0) 0).symm.trans selects
    refine ⟨selection, response, _, finished, answer_eq, read, ?_, echoes⟩
    cases selection_eq
    rfl

end CoinSelection
