import CoinSelection.Proofs.Preparation

/-!
# What a request is answered

A request for a positive target passes through the filter, preparation and a
strategy.  Where none of them aborts there are five answers; the last two come
from the strategy, for the exact candidates and with everything fitting.
-/

namespace CoinSelection

open Checked Outcome

/-! ## One request -/

/-- The selection with its excess over the target that was asked for. -/
def Selection.paying (target : Nat) (selection : Selection) : Selection :=
  { selection with excessValue := selection.selectedValue - target }

/-- Options are refused for one of their rates. -/
theorem Options.exists_invalidFeeRate {options : Options} {failure : Failure}
    (invalid : options.validate = .error failure) :
    ∃ rate, failure = .error (.invalidFeeRate rate) := by
  have rates {rate : FeeRate} {failure : Failure} (invalid : rate.validate = .error failure) :
      ∃ rate, failure = .error (.invalidFeeRate rate) :=
    ⟨_, (FeeRate.validate_eq_error_iff.mp invalid).2⟩
  unfold validate at invalid
  cases effective : options.effectiveRate.validate with
  | error _ =>
      rw [effective] at invalid
      exact rates (effective.trans invalid)
  | ok =>
      cases longTerm : options.longTermRate.validate with
      | error _ =>
          rw [effective, longTerm] at invalid
          exact rates (longTerm.trans invalid)
      | ok =>
          rw [effective, longTerm] at invalid
          exact rates invalid

section Run

variable {source : RandomSource} {target : Nat} {pool accepted : List Utxo} {filter : Filter}
  {options : Options}

/-- Invalid options are refused at once. -/
theorem select_run_of_invalid {failure : Failure} (invalid : options.validate = .error failure)
    (drawn : Nat) :
    (select source target pool filter options).run drawn = (.error failure, drawn) := by
  rw [select, invalid, Draw.run_ofOutcome_error_bind]

/-- Nothing is selected for a target of zero. -/
theorem select_run_of_zero (validated : options.validate = .ok ())
    (accepts : filter.accepted pool = .ok accepted) (drawn : Nat) :
    (select source 0 pool filter options).run drawn = (.ok .empty, drawn) := by
  rw [select, validated, Draw.run_ofOutcome_ok_bind, accepts, Draw.run_ofOutcome_ok_bind,
    if_pos rfl, Draw.run_pure]

/-- A valid request that preparation fails draws nothing. -/
theorem select_run_of_error (validated : options.validate = .ok ())
    (accepts : filter.accepted pool = .ok accepted) (positive : 0 < target) {failure : Failure}
    (failed : prepare target accepted filter options = .error failure) (drawn : Nat) :
    (select source target pool filter options).run drawn = (.error failure, drawn) := by
  unfold select
  rw [validated, Draw.run_ofOutcome_ok_bind, accepts, Draw.run_ofOutcome_ok_bind,
    if_neg positive.ne', failed, Draw.run_ofOutcome_error_bind]

/-- A valid request that preparation passes draws what its strategy draws. -/
theorem select_run_of_ok (validated : options.validate = .ok ())
    (accepts : filter.accepted pool = .ok accepted) (positive : 0 < target) {task : Task}
    (prepared : prepare target accepted filter options = .ok task) (drawn : Nat) :
    (select source target pool filter options).run drawn =
      (((task.strategy.select source task.candidates task.target).run drawn).1.map
          (Selection.paying target),
        ((task.strategy.select source task.candidates task.target).run drawn).2) := by
  rw [← Draw.run_bind_pure]
  unfold select
  rw [validated, Draw.run_ofOutcome_ok_bind, accepts, Draw.run_ofOutcome_ok_bind,
    if_neg positive.ne', prepared, Draw.run_ofOutcome_ok_bind]
  rfl

/-- Candidates that branch and bound finds are the answer, and nothing is
drawn. -/
theorem select_run_of_found (validated : options.validate = .ok ())
    (accepts : filter.accepted pool = .ok accepted) (positive : 0 < target)
    {candidates chosen : List Candidate} {needed costOfChange : Nat} {fallback : Strategy}
    {selection : Selection}
    (prepared : prepare target accepted filter options =
      .ok { candidates, target := needed, strategy := .branchAndBound costOfChange fallback })
    (searched : BranchAndBound.select costOfChange candidates needed = .ok chosen)
    (totals : Selection.ofCandidates chosen needed .branchAndBound = .ok selection) (drawn : Nat) :
    (select source target pool filter options).run drawn =
      (.ok (selection.paying target), drawn) := by
  rw [select_run_of_ok validated accepts positive prepared]
  simp only [Strategy.select, searched, totals]
  rfl

/-- Before preparation a request only validates its options and filters the
pool. -/
theorem exists_accepted (validated : options.validate = .ok ()) {drawn : Nat}
    (finished : ¬ Aborts ((select source target pool filter options).run drawn).1) :
    filter.accepted pool = .ok (pool.filter filter.admits) := by
  unfold select at finished
  rw [validated, Draw.run_ofOutcome_ok_bind] at finished
  cases accepts : filter.accepted pool with
  | ok accepted => rw [(Filter.accepted_eq_ok_iff.mp accepts).2]
  | error failure =>
      rw [accepts, Draw.run_ofOutcome_error_bind] at finished
      cases failure with
      | error error => exact (Filter.not_refuses_accepted filter pool ⟨error, accepts⟩).elim
      | abort cause => exact (finished (aborts_abort cause)).elim

/-- A request that selects outputs had valid options. -/
theorem validate_of_selects {drawn later : Nat} {selection : Selection}
    (finished : (select source target pool filter options).run drawn = (.ok selection, later)) :
    options.validate = .ok () := by
  cases validated : options.validate with
  | ok => rfl
  | error failure =>
      rw [select_run_of_invalid validated] at finished
      cases finished

end Run

/-! ## The answers -/

/-- All that a request for a positive target can be answered, unless it
aborts. -/
inductive Answered (target : Nat) (accepted : List Utxo) (fees : Fees) (options : Options) :
    Outcome Selection → Prop
  | nothingAccepted (empty : accepted = []) :
      Answered target accepted fees options (refuse (.insufficientFunds target 0))
  | totalTooLarge (large : greatestSigned < totalAmount accepted) :
      Answered target accepted fees options (refuse .totalOverflow)
  | targetTooLarge (fits : (totalAmount accepted : Int) ≤ greatestSigned)
      (large : greatestSigned < (target + fees.exactNotInputFees options : Nat)) :
      Answered target accepted fees options
        (refuse (.insufficientFunds (saturatingAdd target (fees.exactNotInputFees options))
          (totalAmount accepted)))
  | short (ready : Ready target accepted fees options)
      (short : Candidate.worth (fees.candidates 0 accepted) <
        (target + fees.exactNotInputFees options : Nat)) :
      Answered target accepted fees options
        (refuse (Candidate.insufficient (fees.candidates 0 accepted)
          (target + fees.exactNotInputFees options)))
  | selects (ready : Ready target accepted fees options) {chosen : List Candidate}
      {algorithm : Algorithm}
      (subperm : chosen.Subperm (fees.candidates 0 accepted))
      (reaches : ((target + fees.exactNotInputFees options : Nat) : Int) ≤ Candidate.worth chosen)
      (noChange : algorithm = .branchAndBound →
        options.useBranchAndBound = true ∧
          Candidate.worth chosen ≤
            (target + fees.exactNotInputFees options + fees.exactCostOfChange options : Nat)) :
      Answered target accepted fees options
        (.ok ((Selection.exact chosen (target + fees.exactNotInputFees options) algorithm).paying
          target))

section Answered

variable {source : RandomSource} {target : Nat} {pool accepted : List Utxo} {filter : Filter}
  {options : Options} {fees : Fees}

theorem Ready.economic (ready : Ready target accepted fees options) :
    Candidate.Economic (fees.candidates 0 accepted) :=
  Fees.economic_candidates ready.fits

/-- An answer of the strategy is an answer to the request. -/
theorem Answered.of_answers (ready : Ready target accepted fees options)
    {outcome : Outcome Selection}
    (answers : (options.exactStrategy fees).Answers (fees.candidates 0 accepted)
      (target + fees.exactNotInputFees options) outcome) :
    Answered target accepted fees options (outcome.map (Selection.paying target)) := by
  cases answers with
  | selects sublist reaches noChange =>
      have subperm := sublist.subperm.trans (Candidate.largestFirst_perm _).subperm
      refine .selects ready subperm reaches fun algorithm_eq => ?_
      obtain ⟨costOfChange, member, within⟩ := noChange algorithm_eq
      obtain ⟨searches, rfl⟩ := Options.mem_costs_exactStrategy.mp member
      refine ⟨searches, ?_⟩
      rwa [Nat.cast_add]
  | refuses short => exact .short ready short

/-- A request for a positive target gets one of the answers, unless it
aborts. -/
theorem select_answered (validated : options.validate = .ok ()) (positive : 0 < target)
    {drawn : Nat}
    (finished : ¬ Aborts ((select source target pool filter options).run drawn).1) :
    Answered target (pool.filter filter.admits) (options.passFees filter) options
      ((select source target pool filter options).run drawn).1 := by
  have accepts := exists_accepted validated finished
  cases preparation : prepare target (pool.filter filter.admits) filter options with
  | error failure =>
      rw [select_run_of_error validated accepts positive preparation] at finished ⊢
      rw [aborts_error_iff, ← aborts_error_iff (α := Task)] at finished
      cases prepare_eq_iff.mp ⟨preparation, finished⟩ with
      | nothingAccepted empty => exact .nothingAccepted empty
      | totalTooLarge large => exact .totalTooLarge large
      | targetTooLarge nonempty fits product large => exact .targetTooLarge fits large
  | ok task =>
      rw [select_run_of_ok validated accepts positive preparation] at finished ⊢
      cases prepare_eq_iff.mp ⟨preparation, not_aborts_ok task⟩ with
      | ready ready =>
          have strategyFinished := fun aborts => finished (aborts_map_iff.mpr aborts)
          exact .of_answers ready (Strategy.select_answers ready.economic _ drawn strategyFinished)

/-- Once everything fits, a valid request answers what its strategy answers for
the exact candidates. -/
theorem Ready.select_run (ready : Ready target accepted (options.passFees filter) options)
    (validated : options.validate = .ok ()) (accepts : filter.accepted pool = .ok accepted)
    (positive : 0 < target) (drawn : Nat) :
    (select source target pool filter options).run drawn =
      Prod.map (Except.map (Selection.paying target)) id
        (((options.exactStrategy (options.passFees filter)).select source
          ((options.passFees filter).candidates 0 accepted)
          (target + (options.passFees filter).exactNotInputFees options)).run drawn) :=
  select_run_of_ok validated accepts positive (prepare_eq_iff.mpr (.ready ready)).1 drawn

/-- Everything fitted where the answer is a selection. -/
theorem Answered.ready {selection : Selection}
    (answered : Answered target accepted fees options (.ok selection)) :
    Ready target accepted fees options := by
  generalize outcome_eq : Except.ok selection = outcome at answered
  cases answered with
  | selects ready => exact ready
  | _ => cases outcome_eq

/-- A request that selects outputs does not abort. -/
theorem not_aborts_of_selects {drawn later : Nat} {selection : Selection}
    (finished : (select source target pool filter options).run drawn = (.ok selection, later)) :
    ¬ Aborts ((select source target pool filter options).run drawn).1 := by
  rw [finished]
  exact not_aborts_ok selection

/-- A request that selects outputs could filter the pool. -/
theorem accepted_of_selects {drawn later : Nat} {selection : Selection}
    (finished : (select source target pool filter options).run drawn = (.ok selection, later)) :
    filter.accepted pool = .ok (pool.filter filter.admits) :=
  exists_accepted (validate_of_selects finished) (not_aborts_of_selects finished)

/-- A request that selects outputs for a positive target gets one of the
answers. -/
theorem answered_of_selects (positive : 0 < target) {drawn later : Nat} {selection : Selection}
    (finished : (select source target pool filter options).run drawn = (.ok selection, later)) :
    Answered target (pool.filter filter.admits) (options.passFees filter) options
      (.ok selection) := by
  have answered :=
    select_answered (validate_of_selects finished) positive (not_aborts_of_selects finished)
  rwa [finished] at answered

/-- A request that is refused for another reason than a rate was for a positive
target, and its refusal is one of the answers. -/
theorem answered_of_refuses {drawn later : Nat} {error : Error}
    (rates : ∀ rate, error ≠ .invalidFeeRate rate)
    (refused : (select source target pool filter options).run drawn = (refuse error, later)) :
    0 < target ∧ filter.accepted pool = .ok (pool.filter filter.admits) ∧
      Answered target (pool.filter filter.admits) (options.passFees filter) options
        (refuse error) := by
  have finished : ¬ Aborts ((select source target pool filter options).run drawn).1 := by
    rw [refused]
    exact not_aborts_error error
  have validated : options.validate = .ok () := by
    cases validation : options.validate with
    | ok => rfl
    | error failure =>
        obtain ⟨rate, rfl⟩ := Options.exists_invalidFeeRate validation
        rw [select_run_of_invalid validation] at refused
        cases refused
        exact (rates rate rfl).elim
  have accepts := exists_accepted validated finished
  have positive : 0 < target := by
    rw [Nat.pos_iff_ne_zero]
    rintro rfl
    rw [select_run_of_zero validated accepts] at refused
    cases refused
  have answered := select_answered validated positive finished
  rw [refused] at answered
  exact ⟨positive, accepts, answered⟩

end Answered

/-! ## One request in full -/

/-- Two outputs of one transaction, the more valuable one first. -/
def twoOutputs : List Utxo :=
  [{ outpoint := ⟨⟨Vector.replicate 32 0⟩, 0⟩, amount := 600 },
    { outpoint := ⟨⟨Vector.replicate 32 0⟩, 1⟩, amount := 300 }]

/-- Pay the least rate that is relayed, with defaults otherwise. -/
def relayOptions : Options :=
  { effectiveRate := .minimumRelay }

/-- The first output alone pays five hundred and the fees, without change. -/
theorem select_twoOutputs (source : RandomSource) (drawn : Nat) :
    (select source 500 twoOutputs {} relayOptions).run drawn =
      (.ok
        { selected := twoOutputs.take 1
          selectedValue := 600
          excessValue := 100
          inputFees := 41
          algorithm := .branchAndBound },
        drawn) := by
  have prepared : prepare 500 twoOutputs {} relayOptions = .ok
      { candidates := (relayOptions.fees true).candidates 0 twoOutputs
        target := 511
        strategy := .branchAndBound 235 (.knapsack defaultMinimumChange) } := by
    decide +kernel
  have searched : BranchAndBound.select 235 ((relayOptions.fees true).candidates 0 twoOutputs) 511 =
      .ok (((relayOptions.fees true).candidates 0 twoOutputs).take 1) := by
    rw [BranchAndBound.select, BranchAndBound.search,
      Candidate.largestFirst_of_sorted (by decide +kernel)]
    decide +kernel
  have totals : Selection.ofCandidates (((relayOptions.fees true).candidates 0 twoOutputs).take 1)
      511 .branchAndBound = .ok
        { selected := twoOutputs.take 1
          selectedValue := 600
          excessValue := 89
          inputFees := 41
          algorithm := .branchAndBound } := by
    rw [Selection.ofCandidates, Selection.offeredOrder_of_sorted (by decide +kernel)]
    decide +kernel
  exact select_run_of_found (by decide +kernel) (by decide +kernel) (by decide) prepared searched
    totals drawn

end CoinSelection
