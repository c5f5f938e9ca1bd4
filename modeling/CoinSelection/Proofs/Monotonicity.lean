import CoinSelection.Proofs.Feasibility

/-!
# Monotonicity

A request that succeeds goes on succeeding when it is made easier: with a
smaller target, with more outputs to choose from, with a filter that asks for
fewer confirmations or sees a later tip, and with options that price inputs and
transaction no higher.  At worst there are then too many outputs to add up.
-/

namespace CoinSelection

open Checked Outcome

/-! ## Filters -/

/-- A filter with a known tip asks for no more than another: the same asset, no
more confirmations, and these counted from no earlier tip. -/
structure Filter.Relaxes (easier stricter : Filter) : Prop where
  targetAsset_eq : easier.targetAsset = stricter.targetAsset
  minConfirmations_le : easier.minConfirmations ≤ stricter.minConfirmations
  tips : ∃ tipHeight later, stricter.tipHeight = some tipHeight ∧
    easier.tipHeight = some later ∧ tipHeight ≤ later

section Filter

variable {easier stricter : Filter} {part whole : List Utxo}

/-- What passes the stricter filter passes the easier one. -/
theorem Filter.Relaxes.admits (relaxes : easier.Relaxes stricter) {utxo : Utxo}
    (admitted : stricter.admits utxo = true) : easier.admits utxo = true := by
  obtain ⟨sameAsset, fewer, tipHeight, later, stricterTip, easierTip, tip_le⟩ := relaxes
  have fewer_le : easier.minConfirmations.toNat ≤ stricter.minConfirmations.toNat :=
    UInt32.le_iff_toNat_le.mp fewer
  have counted := utxo.exactConfirmations_mono (UInt32.le_iff_toNat_le.mp tip_le)
  simp only [Filter.admits, Filter.acceptsAsset, stricterTip, easierTip, sameAsset,
    Bool.and_eq_true, Bool.or_eq_true, decide_eq_true_eq] at admitted ⊢
  refine ⟨admitted.1, ?_⟩
  rcases admitted.2 with unconfirmed | confirmed
  · left
    rw [unconfirmed] at fewer_le
    exact UInt32.toNat_inj.mp (Nat.le_zero.mp fewer_le)
  · right
    omega

theorem Filter.Relaxes.sublist (relaxes : easier.Relaxes stricter) (sublist : part.Sublist whole) :
    (part.filter stricter.admits).Sublist (whole.filter easier.admits) :=
  (List.monotone_filter_right part fun _ => relaxes.admits).trans (sublist.filter _)

end Filter

/-! ## Options -/

/-- Options price inputs and the rest of the transaction no higher than others,
in the same asset. -/
structure Options.NoDearer (cheaper dearer : Options) : Prop where
  feeAsset_eq : cheaper.feeAsset = dearer.feeAsset
  rate_le : cheaper.effectiveRate.toSatPerKvb ≤ dearer.effectiveRate.toSatPerKvb
  noInputsSize_le : cheaper.noInputsSize ≤ dearer.noInputsSize

section Options

variable {cheaper dearer : Options} {easier stricter : Filter}

/-- Both passes price their inputs, or neither does. -/
theorem Options.NoDearer.baseRate_le (noDearer : cheaper.NoDearer dearer)
    (sameAsset : easier.targetAsset = stricter.targetAsset) :
    (cheaper.passFees easier).effective.baseRate ≤
      (dearer.passFees stricter).effective.baseRate := by
  have samePass : cheaper.paysFee easier = dearer.paysFee stricter := by
    simp only [Options.paysFee, noDearer.feeAsset_eq, sameAsset]
  unfold Options.passFees
  rw [samePass]
  cases dearer.paysFee stricter with
  | false => exact le_rfl
  | true => exact noDearer.rate_le

theorem Options.NoDearer.notInputFees_le (noDearer : cheaper.NoDearer dearer)
    (sameAsset : easier.targetAsset = stricter.targetAsset) :
    (cheaper.passFees easier).exactNotInputFees cheaper ≤
      (dearer.passFees stricter).exactNotInputFees dearer :=
  FeeCalculator.exactFee_mono (noDearer.baseRate_le sameAsset)
    (UInt64.le_iff_toNat_le.mp noDearer.noInputsSize_le)

end Options

/-! ## Requests -/

section Request

variable {source otherSource : RandomSource} {target lower : Nat} {pool larger : List Utxo}
  {stricter easier : Filter} {dearer cheaper : Options}

/-- An easier request than one that succeeds is not refused for lack of funds.
If it does not abort it selects outputs, or the accepted ones add up to too
much. -/
theorem select_feasible_mono {drawn later otherDrawn : Nat} {selection : Selection}
    (finished : (select source target pool stricter dearer).run drawn = (.ok selection, later))
    (positive : 0 < lower) (lower_le : lower ≤ target) (sublist : pool.Sublist larger)
    (relaxes : easier.Relaxes stricter) (noDearer : cheaper.NoDearer dearer)
    (validated : cheaper.validate = .ok ())
    (otherFinished :
      ¬ Aborts ((select otherSource lower larger easier cheaper).run otherDrawn).1) :
    ((∃ selection,
          ((select otherSource lower larger easier cheaper).run otherDrawn).1 = .ok selection) ∨
        ((select otherSource lower larger easier cheaper).run otherDrawn).1 =
            refuse .totalOverflow ∧
          greatestSigned < totalAmount (larger.filter easier.admits)) ∧
      ∀ needed available,
        ((select otherSource lower larger easier cheaper).run otherDrawn).1 ≠
          refuse (.insufficientFunds needed available) := by
  have answered := answered_of_selects (positive.trans_le lower_le) finished
  have decided := answered.decidedBy (positive.trans_le lower_le)
  have otherDecided := (select_answered validated positive otherFinished).decidedBy positive
  have enough := (decided.selects_iff answered.ready.fits).mp ⟨selection, rfl⟩
  have otherEnough : lower + (cheaper.passFees easier).exactNotInputFees cheaper ≤
      (cheaper.passFees easier).effective.worth (larger.filter easier.admits) := by
    calc
      lower + (cheaper.passFees easier).exactNotInputFees cheaper ≤
          target + (dearer.passFees stricter).exactNotInputFees dearer :=
        Nat.add_le_add lower_le (noDearer.notInputFees_le relaxes.targetAsset_eq)
      _ ≤ (dearer.passFees stricter).effective.worth (pool.filter stricter.admits) := enough
      _ ≤ (cheaper.passFees easier).effective.worth (larger.filter easier.admits) :=
        FeeCalculator.worth_mono (noDearer.baseRate_le relaxes.targetAsset_eq)
          (relaxes.sublist sublist)
  rcases lt_or_ge greatestSigned (totalAmount (larger.filter easier.admits) : Int) with
    large | fits
  · have overflows := otherDecided.overflow_iff.mpr large
    constructor
    · exact .inr ⟨overflows, large⟩
    · intro needed available
      rw [overflows]
      simp [refuse]
  · obtain ⟨otherSelection, selects⟩ := (otherDecided.selects_iff fits).mpr otherEnough
    constructor
    · exact .inl ⟨otherSelection, selects⟩
    · intro needed available
      rw [selects]
      simp [refuse]

/-- An output that the block at height one hundred confirmed. -/
def confirmedOutput : Utxo :=
  { outpoint := ⟨⟨Vector.replicate 32 0⟩, 0⟩, amount := 600, confirmationHeight := some 100 }

/-- An output that no block confirmed. -/
def pendingOutput : Utxo :=
  { outpoint := ⟨⟨Vector.replicate 32 0⟩, 1⟩, amount := 600 }

/-- The selection of the confirmed output for a target, without change. -/
def confirmedSelection (target inputFees : Nat) : Selection where
  selected := [confirmedOutput]
  selectedValue := 600
  excessValue := 600 - target
  inputFees
  algorithm := .branchAndBound

/-- The confirmed output is selected where no other is accepted and branch and
bound finds it. -/
theorem select_confirmedOutput {filter : Filter} {options : Options}
    {needed costOfChange fee : Nat} (validated : options.validate = .ok ())
    (accepts : filter.accepted pool = .ok [confirmedOutput]) (positive : 0 < target)
    (prepared : prepare target [confirmedOutput] filter options = .ok
      { candidates := [⟨confirmedOutput, fee, 0, 600 - fee, 0⟩]
        target := needed
        strategy := .branchAndBound costOfChange (.knapsack defaultMinimumChange) })
    (searched : BranchAndBound.select costOfChange [⟨confirmedOutput, fee, 0, 600 - fee, 0⟩]
      needed = .ok [⟨confirmedOutput, fee, 0, 600 - fee, 0⟩])
    (feeFits : fee < wordBound) (drawn : Nat) :
    (select source target pool filter options).run drawn =
      (.ok (confirmedSelection target fee), drawn) := by
  have amountFits : 600 < wordBound := by decide
  have totals : Selection.ofCandidates [⟨confirmedOutput, fee, 0, 600 - fee, 0⟩] needed
      .branchAndBound =
        .ok (.exact [⟨confirmedOutput, fee, 0, 600 - fee, 0⟩] needed .branchAndBound) :=
    Selection.ofCandidates_eq_ok_iff.mpr ⟨amountFits, feeFits, rfl⟩
  rw [select_run_of_found validated accepts positive prepared searched totals, Selection.exact,
    Selection.offeredOrder_singleton]
  rfl

theorem select_feasible_mono_confirmedOutput :
    let stricter : Filter := { minConfirmations := 6, tipHeight := some 105 }
    let easier : Filter := { minConfirmations := 3, tipHeight := some 110 }
    (select (fun _ => 0) 500 [confirmedOutput] stricter relayOptions).run 0 =
        (.ok (confirmedSelection 500 41), 0) ∧
      easier.Relaxes stricter ∧ Options.NoDearer {} relayOptions ∧
        ∃ selection, ((select (fun _ => 0) 400 [pendingOutput, confirmedOutput] easier {}).run
          0).1 = .ok selection := by
  intro stricter easier
  have relaxes : easier.Relaxes stricter := ⟨rfl, by decide, 105, 110, rfl, rfl, by decide⟩
  have noDearer : Options.NoDearer {} relayOptions := ⟨rfl, by decide +kernel, by decide⟩
  have prepared : prepare 500 [confirmedOutput] stricter relayOptions = .ok
      { candidates := [⟨confirmedOutput, 41, 0, 559, 0⟩]
        target := 511
        strategy := .branchAndBound 235 (.knapsack defaultMinimumChange) } := by
    decide +kernel
  have searched : BranchAndBound.select 235 [⟨confirmedOutput, 41, 0, 559, 0⟩] 511 =
      .ok [⟨confirmedOutput, 41, 0, 559, 0⟩] := by
    rw [BranchAndBound.select, BranchAndBound.search, Candidate.largestFirst_singleton]
    decide +kernel
  have finished : (select (fun _ => 0) 500 [confirmedOutput] stricter relayOptions).run 0 =
      (.ok (confirmedSelection 500 41), 0) :=
    select_confirmedOutput (by decide +kernel) (by decide +kernel) (by decide) prepared searched
      (by decide) 0
  have easierPrepared : prepare 400 [confirmedOutput] easier {} = .ok
      { candidates := [⟨confirmedOutput, 0, 0, 600, 0⟩]
        target := 400
        strategy := .branchAndBound 204 (.knapsack defaultMinimumChange) } := by
    decide +kernel
  have easierSearched : BranchAndBound.select 204 [⟨confirmedOutput, 0, 0, 600, 0⟩] 400 =
      .ok [⟨confirmedOutput, 0, 0, 600, 0⟩] := by
    rw [BranchAndBound.select, BranchAndBound.search, Candidate.largestFirst_singleton]
    decide +kernel
  have easierFinished : ¬ Aborts ((select (fun _ => 0) 400 [pendingOutput, confirmedOutput] easier
      {}).run 0).1 := by
    rw [select_confirmedOutput (by decide +kernel) (by decide +kernel) (by decide) easierPrepared
      easierSearched (by decide)]
    exact not_aborts_ok _
  have feasible := (select_feasible_mono finished (by decide) (by decide)
    (List.sublist_cons_self pendingOutput [confirmedOutput]) relaxes noDearer (by decide +kernel)
    easierFinished).1
  refine ⟨finished, relaxes, noDearer, feasible.resolve_right ?_⟩
  rintro ⟨_, large⟩
  exact absurd large (by decide +kernel)

end Request

end CoinSelection
