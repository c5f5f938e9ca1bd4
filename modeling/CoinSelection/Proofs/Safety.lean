import CoinSelection.Proofs.Answers

/-!
# Safety

Once everything fits that is formed for counting confirmations and for pricing,
a request does not abort.  The sums of the searches need no bound of their own,
except that branch and bound also adds up long-term fees.
-/

namespace CoinSelection

open Checked Outcome

/-- Everything that a request forms before its searches fits, and so do the
long-term fees that branch and bound adds up. -/
structure RequestFits (pool : List Utxo) (filter : Filter) (options : Options) : Prop where
  counts : ∀ utxo ∈ pool, filter.CountFits utxo
  prices : ∀ utxo ∈ pool.filter filter.admits, (options.passFees filter).Prices utxo
  product : (options.passFees filter).effective.baseRate * options.noInputsSize.toNat < wordBound
  pricesChange : options.useBranchAndBound = true → (options.passFees filter).PricesChange options
  longTermFees : options.useBranchAndBound = true →
    (Candidate.longTermFees ((options.passFees filter).candidates 0
      (pool.filter filter.admits)) : Int) ≤ greatestSigned

variable {source : RandomSource} {target : Nat} {pool accepted : List Utxo} {filter : Filter}
  {options : Options} {fees : Fees}

theorem not_aborts_validate (options : Options) : ¬ options.validate.Aborts := by
  rintro ⟨cause, aborted⟩
  obtain ⟨_, refused⟩ := Options.exists_invalidFeeRate aborted
  cases refused

/-- Preparation has an answer wherever its words fit. -/
theorem exists_prepared (product : fees.effective.baseRate * options.noInputsSize.toNat < wordBound)
    (prices : ∀ utxo ∈ accepted, fees.Prices utxo)
    (pricesChange : options.useBranchAndBound = true → fees.PricesChange options) (target : Nat) :
    ∃ outcome, Prepared target accepted fees options outcome := by
  by_cases nonempty : accepted = []
  · exact ⟨_, .nothingAccepted nonempty⟩
  by_cases fits : (totalAmount accepted : Int) ≤ greatestSigned
  · by_cases targetFits :
        ((target + fees.exactNotInputFees options : Nat) : Int) ≤ greatestSigned
    · exact ⟨_, .ready ⟨nonempty, fits, product, targetFits, prices, pricesChange⟩⟩
    · exact ⟨_, .targetTooLarge nonempty fits product (not_le.mp targetFits)⟩
  · exact ⟨_, .totalTooLarge (not_le.mp fits)⟩

/-- A strategy that the options ask for does not abort on prepared candidates. -/
theorem exactStrategy_not_aborts (ready : Ready target accepted fees options)
    (longTermFees : options.useBranchAndBound = true →
      (Candidate.longTermFees (fees.candidates 0 accepted) : Int) ≤ greatestSigned)
    (needed drawn : Nat) :
    ¬ Aborts (((options.exactStrategy fees).select source (fees.candidates 0 accepted)
      needed).run drawn).1 := by
  refine Strategy.select_not_aborts ready.economic _ (fun searches => longTermFees ?_) drawn
  obtain ⟨costOfChange, member⟩ := List.exists_mem_of_ne_nil _ searches
  exact (Options.mem_costs_exactStrategy.mp member).1

/-- A request that fits is answered with a selection or with an error, whatever
the source draws and whatever the target is. -/
theorem select_finishes (fits : RequestFits pool filter options) (source : RandomSource)
    (target drawn : Nat) :
    (∃ selection, ((select source target pool filter options).run drawn).1 = .ok selection) ∨
      ∃ error, ((select source target pool filter options).run drawn).1 = refuse error := by
  suffices finished : ¬ Aborts ((select source target pool filter options).run drawn).1 from
    not_aborts_iff.mp finished
  have accepts := Filter.accepted_eq_ok_iff.mpr ⟨fits.counts, rfl⟩
  cases validated : options.validate with
  | error failure =>
      rw [select_run_of_invalid validated, aborts_error_iff, ← aborts_error_iff (α := Unit),
        ← validated]
      exact not_aborts_validate options
  | ok =>
      rcases Nat.eq_zero_or_pos target with rfl | positive
      · rw [select_run_of_zero validated accepts]
        exact not_aborts_ok _
      obtain ⟨outcome, prepared⟩ :=
        exists_prepared fits.product fits.prices fits.pricesChange target
      obtain ⟨prepared_eq, taskFinished⟩ := prepare_eq_iff.mpr prepared
      cases outcome with
      | error failure =>
          rw [select_run_of_error validated accepts positive prepared_eq, aborts_error_iff,
            ← aborts_error_iff (α := Task)]
          exact taskFinished
      | ok task =>
          cases prepared with
          | ready ready =>
              rw [select_run_of_ok validated accepts positive prepared_eq, aborts_map_iff]
              exact exactStrategy_not_aborts ready fits.longTermFees _ drawn

theorem requestFits_twoOutputs : RequestFits twoOutputs {} relayOptions where
  counts _ _ _ counted := absurd rfl counted
  prices := by
    have priced : economicCandidates (relayOptions.passFees {}) 0 twoOutputs =
        .ok ((relayOptions.passFees {}).candidates 0 twoOutputs) := by
      decide +kernel
    exact fun utxo member =>
      (Fees.economicCandidates_eq_ok_iff.mp priced).1 utxo (List.mem_of_mem_filter member)
  product := by decide +kernel
  pricesChange _ := ⟨by decide +kernel, by decide +kernel⟩
  longTermFees _ := by decide +kernel

theorem select_finishes_twoOutputs :
    (∃ selection, ((select (fun _ => 0) 500 twoOutputs {} relayOptions).run 0).1 = .ok selection) ∨
      ∃ error, ((select (fun _ => 0) 500 twoOutputs {} relayOptions).run 0).1 = refuse error :=
  select_finishes requestFits_twoOutputs _ 500 0

end CoinSelection
