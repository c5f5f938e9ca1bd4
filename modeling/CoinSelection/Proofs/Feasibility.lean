import CoinSelection.Proofs.Answers

/-!
# Feasibility

Whether a request succeeds is a matter of arithmetic.  It is refused for the
total of the accepted outputs, or because they leave too little after their
fees, and it succeeds otherwise; no search, no chance and no other rate has a
say in it.
-/

namespace CoinSelection

open Checked Outcome

/-! ## Deciding a request -/

/-- An outcome is decided by the amounts, by what the outputs are worth, and by
what is needed. -/
structure DecidedBy (amounts worth needed : Nat) (outcome : Outcome Selection) : Prop where
  overflow_iff : outcome = refuse .totalOverflow ↔ greatestSigned < amounts
  selects_iff : (amounts : Int) ≤ greatestSigned →
    ((∃ selection, outcome = .ok selection) ↔ needed ≤ worth)
  insufficient_iff : (amounts : Int) ≤ greatestSigned →
    ((∃ required available, outcome = refuse (.insufficientFunds required available)) ↔
      worth < needed)

section DecidedBy

variable {amounts worth needed : Nat}

theorem DecidedBy.of_overflow (large : greatestSigned < amounts) :
    DecidedBy amounts worth needed (refuse .totalOverflow) where
  overflow_iff := iff_of_true rfl large
  selects_iff fits := absurd fits (not_le.mpr large)
  insufficient_iff fits := absurd fits (not_le.mpr large)

theorem DecidedBy.of_insufficient (fits : (amounts : Int) ≤ greatestSigned)
    (short : worth < needed) (required available : Nat) :
    DecidedBy amounts worth needed (refuse (.insufficientFunds required available)) where
  overflow_iff := by simp [refuse, fits]
  selects_iff _ := by simp [refuse, short]
  insufficient_iff _ := iff_of_true ⟨required, available, rfl⟩ short

theorem DecidedBy.of_selects (fits : (amounts : Int) ≤ greatestSigned) (enough : needed ≤ worth)
    (selection : Selection) : DecidedBy amounts worth needed (.ok selection) where
  overflow_iff := by simp [refuse, fits]
  selects_iff _ := iff_of_true ⟨selection, rfl⟩ enough
  insufficient_iff _ := by simp [refuse, enough]

/-- A decided outcome is refused for one of two reasons, neither of them the
failure of a search. -/
theorem DecidedBy.refused {error : Error}
    (decided : DecidedBy amounts worth needed (refuse error)) :
    error = .totalOverflow ∨
      ∃ required available, error = .insufficientFunds required available := by
  rcases lt_or_ge greatestSigned (amounts : Int) with large | fits
  · left
    simpa [refuse] using decided.overflow_iff.mpr large
  rcases lt_or_ge worth needed with short | enough
  · right
    simpa [refuse] using (decided.insufficient_iff fits).mpr short
  · obtain ⟨selection, outcome_eq⟩ := (decided.selects_iff fits).mpr enough
    cases outcome_eq

end DecidedBy

/-! ## Requests -/

variable {source : RandomSource} {target : Nat} {pool accepted : List Utxo} {filter : Filter}
  {options : Options} {fees : Fees}

/-- Every answer is the one that the arithmetic asks for. -/
theorem Answered.decidedBy {outcome : Outcome Selection} (positive : 0 < target)
    (answered : Answered target accepted fees options outcome) :
    DecidedBy (totalAmount accepted) (fees.effective.worth accepted)
      (target + fees.exactNotInputFees options) outcome := by
  cases answered with
  | nothingAccepted empty =>
      subst empty
      have worth_eq : fees.effective.worth [] = 0 := rfl
      exact .of_insufficient (by decide) (by omega) target 0
  | totalTooLarge large => exact .of_overflow large
  | targetTooLarge fits large =>
      have worth_le := fees.effective.worth_le_totalAmount accepted
      exact .of_insufficient fits (by omega) _ _
  | short ready short =>
      rw [Fees.worth_candidates ready.fits] at short
      exact .of_insufficient ready.fits (by omega) _ _
  | @selects ready chosen algorithm subperm reaches noChange =>
      have worth_le := ready.economic.positive.worth_le subperm
      rw [Fees.worth_candidates ready.fits] at worth_le
      exact .of_selects ready.fits (by omega) _

/-- A request for a positive target that does not abort is refused exactly when
the accepted outputs add up to too much, or when those worth more than their
fees leave less after these than the target and the fees for the rest of the
transaction.  There is no other refusal. -/
theorem select_decided (positive : 0 < target) (validated : options.validate = .ok ())
    {drawn : Nat}
    (finished : ¬ Aborts ((select source target pool filter options).run drawn).1) :
    filter.accepted pool = .ok (pool.filter filter.admits) ∧
      DecidedBy (totalAmount (pool.filter filter.admits))
        ((options.fees (options.paysFee filter)).effective.worth (pool.filter filter.admits))
        (target + (options.fees (options.paysFee filter)).effective.exactFee
          options.noInputsSize.toNat)
        ((select source target pool filter options).run drawn).1 ∧
      ∀ error, ((select source target pool filter options).run drawn).1 = refuse error →
        error = .totalOverflow ∨
          ∃ required available, error = .insufficientFunds required available := by
  have decided := (select_answered validated positive finished).decidedBy positive
  refine ⟨exists_accepted validated finished, decided, fun error refused => ?_⟩
  rw [refused] at decided
  exact decided.refused

theorem select_decided_twoOutputs :
    DecidedBy 900 818 511 ((select (fun _ => 0) 500 twoOutputs {} relayOptions).run 0).1 := by
  have finished : ¬ Aborts ((select (fun _ => 0) 500 twoOutputs {} relayOptions).run 0).1 := by
    rw [select_twoOutputs]
    exact not_aborts_ok _
  have decided := (select_decided (by decide) (by decide +kernel) finished).2.1
  have worth_eq : (relayOptions.fees (relayOptions.paysFee {})).effective.worth
      (twoOutputs.filter (Filter.admits {})) = 818 := by
    decide +kernel
  have fee_eq : (relayOptions.fees (relayOptions.paysFee {})).effective.exactFee
      relayOptions.noInputsSize.toNat = 11 := by
    decide +kernel
  rwa [worth_eq, fee_eq] at decided

end CoinSelection
