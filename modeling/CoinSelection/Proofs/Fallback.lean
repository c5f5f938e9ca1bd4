import CoinSelection.Proofs.Answers

/-!
# Branch and bound before its fallback

Branch and bound draws no words and leaves the candidates as they are.  So a
strategy that begins with it selects without chance, or answers what its
fallback answers.  Where the fallback refuses, all candidates together are worth
too little, and then branch and bound finds nothing either.
-/

namespace CoinSelection

open Candidate Checked Outcome

/-! ## Replaced answers -/

/-- An answer after `drawn` words only replaces another one: branch and bound
found it without drawing, or the two are the same, and they are the same
wherever the other one is a refusal. -/
structure Replaces (drawn : Nat) (answer other : Outcome Selection × Nat) : Prop where
  found_or_same :
    (∃ selection, answer = (.ok selection, drawn) ∧ selection.algorithm = .branchAndBound) ∨
      answer = other
  same_refusal : ∀ error later, other = (refuse error, later) → answer = (refuse error, later)

namespace Replaces

variable {drawn : Nat} {answer other : Outcome Selection × Nat}

theorem refl (drawn : Nat) (answer : Outcome Selection × Nat) : Replaces drawn answer answer where
  found_or_same := .inr rfl
  same_refusal _ _ refused := refused

/-- A replaced answer stays one for an excess over another target. -/
theorem paying (replaces : Replaces drawn answer other) (target : Nat) :
    Replaces drawn (answer.map (Except.map (Selection.paying target)) id)
      (other.map (Except.map (Selection.paying target)) id) where
  found_or_same := by
    rcases replaces.found_or_same with ⟨selection, rfl, found⟩ | rfl
    · exact .inl ⟨selection.paying target, rfl, found⟩
    · exact .inr rfl
  same_refusal error later refused := by
    obtain ⟨outcome, last⟩ := other
    cases outcome with
    | ok selection => cases refused
    | error failure =>
        cases refused
        rw [replaces.same_refusal error last rfl]
        rfl

end Replaces

/-! ## Strategies -/

namespace Strategy

section

variable {source : RandomSource} {candidates : List Candidate} {target costOfChange drawn : Nat}
  {fallback : Strategy}

/-- A strategy refuses only if all candidates together do not reach the
target. -/
theorem worth_lt_of_refuses (economic : Economic candidates) {strategy : Strategy} {error : Error}
    {later : Nat}
    (refused : (strategy.select source candidates target).run drawn = (refuse error, later)) :
    worth candidates < target := by
  have finished : ¬ Aborts ((strategy.select source candidates target).run drawn).1 := by
    rw [refused]
    exact not_aborts_error error
  have answers := select_answers economic strategy drawn finished
  rw [refused] at answers
  generalize outcome_eq : (refuse error : Outcome Selection) = outcome at answers
  cases answers with
  | selects => cases outcome_eq
  | refuses short => exact short

/-- Branch and bound only replaces answers of its fallback, unless the search
aborts. -/
theorem select_replaces (economic : Economic candidates)
    (finished : ¬ Aborts
      (((Strategy.branchAndBound costOfChange fallback).select source candidates target).run
        drawn).1) :
    Replaces drawn
      (((Strategy.branchAndBound costOfChange fallback).select source candidates target).run drawn)
      ((fallback.select source candidates target).run drawn) := by
  rw [select] at finished ⊢
  cases searched : BranchAndBound.select costOfChange candidates target with
  | ok chosen =>
      obtain ⟨sublist, reaches, _⟩ :=
        BranchAndBound.select_sound economic.positive economic.worth_fits searched
      have subperm := sublist.subperm.trans (largestFirst_perm candidates).subperm
      rw [Draw.run_ofOutcome, Selection.ofCandidates_eq_ok (economic.subperm subperm)]
      refine ⟨.inl ⟨_, rfl, rfl⟩, fun error later refused => ?_⟩
      have short := worth_lt_of_refuses economic refused
      have worth_le := economic.positive.worth_le subperm
      omega
  | error failure =>
      simp only [searched] at finished
      cases failure with
      | error error => exact .refl drawn _
      | abort cause => exact (finished (aborts_abort cause)).elim

end

end Strategy

/-! ## Requests -/

/-- The same options without branch and bound. -/
def Options.withoutSearch (options : Options) : Options :=
  { options with useBranchAndBound := false }

section Request

variable {source : RandomSource} {target : Nat} {pool accepted : List Utxo} {filter : Filter}
  {options : Options} {fees : Fees}

theorem Ready.withoutSearch (ready : Ready target accepted fees options) :
    Ready target accepted fees options.withoutSearch where
  nonempty := ready.nonempty
  fits := ready.fits
  product := ready.product
  targetFits := ready.targetFits
  prices := ready.prices
  pricesChange searches := by cases searches

/-- Preparation refuses the same without branch and bound. -/
theorem Prepared.withoutSearch {failure : Failure}
    (prepared : Prepared target accepted fees options (.error failure)) :
    Prepared target accepted fees options.withoutSearch (.error failure) := by
  generalize outcome_eq : (.error failure : Outcome Task) = outcome at prepared ⊢
  cases prepared with
  | nothingAccepted empty => exact .nothingAccepted empty
  | totalTooLarge large => exact .totalTooLarge large
  | targetTooLarge nonempty fits product large => exact .targetTooLarge nonempty fits product large
  | ready ready => cases outcome_eq

/-- Once everything fits, a request with branch and bound falls back on the one
without. -/
theorem Ready.select_replaces (ready : Ready target accepted (options.passFees filter) options)
    (validated : options.validate = .ok ()) (accepts : filter.accepted pool = .ok accepted)
    (positive : 0 < target) (searches : options.useBranchAndBound = true) {drawn : Nat}
    (finished : ¬ Aborts ((select source target pool filter options).run drawn).1) :
    Replaces drawn ((select source target pool filter options).run drawn)
      ((select source target pool filter options.withoutSearch).run drawn) := by
  have strategy_eq : options.exactStrategy (options.passFees filter) =
      .branchAndBound ((options.passFees filter).exactCostOfChange options)
        (options.withoutSearch.exactStrategy (options.passFees filter)) := by
    rw [Options.exactStrategy, if_pos searches]
    rfl
  have fallbackReady : Ready target accepted (options.withoutSearch.passFees filter)
      options.withoutSearch := ready.withoutSearch
  rw [ready.select_run validated accepts positive, strategy_eq] at finished ⊢
  rw [fallbackReady.select_run validated accepts positive]
  exact (Strategy.select_replaces ready.economic fun aborts =>
    finished (aborts_map_iff.mpr aborts)).paying target

/-- A request with branch and bound that does not abort is answered by branch
and bound without drawing, or it is answered what it would be without branch and
bound.  A refusal without branch and bound is one with it. -/
theorem select_replaces_fallback (searches : options.useBranchAndBound = true) {drawn : Nat}
    (finished : ¬ Aborts ((select source target pool filter options).run drawn).1) :
    Replaces drawn ((select source target pool filter options).run drawn)
      ((select source target pool filter options.withoutSearch).run drawn) := by
  have validate_eq : options.withoutSearch.validate = options.validate := rfl
  cases validated : options.validate with
  | error failure =>
      rw [select_run_of_invalid validated, select_run_of_invalid (validate_eq.trans validated)]
      exact .refl drawn _
  | ok =>
      have accepts := exists_accepted validated finished
      have fallbackValidated := validate_eq.trans validated
      rcases Nat.eq_zero_or_pos target with rfl | positive
      · rw [select_run_of_zero validated accepts, select_run_of_zero fallbackValidated accepts]
        exact .refl drawn _
      cases preparation : prepare target (pool.filter filter.admits) filter options with
      | error failure =>
          rw [select_run_of_error validated accepts positive preparation] at finished ⊢
          rw [aborts_error_iff, ← aborts_error_iff (α := Task)] at finished
          have prepared := (prepare_eq_iff.mp ⟨preparation, finished⟩).withoutSearch
          have fallbackPreparation : prepare target (pool.filter filter.admits) filter
              options.withoutSearch = .error failure := (prepare_eq_iff.mpr prepared).1
          rw [select_run_of_error fallbackValidated accepts positive fallbackPreparation]
          exact .refl drawn _
      | ok task =>
          cases prepare_eq_iff.mp ⟨preparation, not_aborts_ok task⟩ with
          | ready ready => exact ready.select_replaces validated accepts positive searches finished

theorem select_replaces_fallback_twoOutputs :
    relayOptions.useBranchAndBound = true ∧
      Replaces 0 ((select (fun _ => 0) 500 twoOutputs {} relayOptions).run 0)
        ((select (fun _ => 0) 500 twoOutputs {} relayOptions.withoutSearch).run 0) := by
  have finished := not_aborts_of_selects (select_twoOutputs (fun _ => 0) 0)
  exact ⟨rfl, select_replaces_fallback rfl finished⟩

end Request

end CoinSelection
