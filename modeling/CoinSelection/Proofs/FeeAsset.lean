import CoinSelection.Proofs.Funding

/-!
# The asset that fees are paid in

Outputs of another asset than the one that fees are paid in are priced at zero,
and so is the rest of the transaction.  The price of spending a change output
later is not: it is the cost of change of such a pass, and so the most that a
selection without change can exceed its target by.
-/

namespace CoinSelection

open Checked Outcome

/-! ## The calculators of a pass -/

section Calculators

variable {options : Options} {filter : Filter} {feeAsset asset : AssetId}

/-- Outputs of the asset that fees are paid in are priced at the rates of the
options. -/
theorem Options.passFees_of_feeAsset (paysIn : options.feeAsset = some feeAsset)
    (restricts : filter.targetAsset = some feeAsset) :
    options.passFees filter = options.fees true := by
  simp [passFees, paysFee, paysIn, restricts]

/-- Outputs of another asset are priced at zero. -/
theorem Options.passFees_of_otherAsset (paysIn : options.feeAsset = some feeAsset)
    (restricts : filter.targetAsset = some asset) (other : asset ≠ feeAsset) :
    options.passFees filter = options.fees false := by
  have unpaid : (feeAsset == asset) = false := beq_eq_false_iff_ne.mpr other.symm
  simp [passFees, paysFee, paysIn, restricts, unpaid]

@[simp]
theorem FeeCalculator.exactFee_free (size : Nat) : exactFee {} size = 0 := by
  simp [exactFee]

theorem FeeCalculator.sum_exactInputFee_free (utxos : List Utxo) :
    (utxos.map (exactInputFee {})).sum = 0 := by
  have free : exactInputFee {} = fun _ => 0 := funext fun utxo => exactFee_free utxo.virtualSize
  simp [free]

theorem Options.effective_fees_false (options : Options) : (options.fees false).effective = {} :=
  rfl

theorem Options.exactNotInputFees_false (options : Options) :
    (options.fees false).exactNotInputFees options = 0 :=
  FeeCalculator.exactFee_free _

/-- Without fees a change output only costs what spending it later costs. -/
theorem Options.exactCostOfChange_false (options : Options) :
    (options.fees false).exactCostOfChange options =
      (FeeCalculator.ofRate options.discardRate).exactFee options.changeSpendSize.toNat := by
  rw [Fees.exactCostOfChange, effective_fees_false, FeeCalculator.exactFee_free, Nat.add_zero]
  rfl

end Calculators

/-! ## Selections of another asset -/

section OtherAsset

variable {source : RandomSource} {target : Nat} {pool : List Utxo} {filter : Filter}
  {options : Options} {feeAsset asset : AssetId}

/-- A selection of another asset than the one that fees are paid in has no input
fees.  Without change it exceeds its target by no more than the fee, at the
discard rate, for spending a change output. -/
theorem select_otherAsset_excess_le (paysIn : options.feeAsset = some feeAsset)
    (restricts : filter.targetAsset = some asset) (other : asset ≠ feeAsset) (positive : 0 < target)
    {drawn later : Nat} {selection : Selection}
    (finished : (select source target pool filter options).run drawn = (.ok selection, later))
    (found : selection.algorithm = .branchAndBound) :
    selection.inputFees = 0 ∧
      ∃ spendingFee,
        (FeeCalculator.ofRate options.discardRate).fee options.changeSpendSize.toNat =
            .ok spendingFee ∧
          selection.excessValue ≤ spendingFee := by
  have funds := (answered_of_selects positive finished).funds
  rw [Options.passFees_of_otherAsset paysIn restricts other] at funds
  have inputFees_eq : selection.inputFees = 0 := by
    rw [funds.inputFees_eq, Options.effective_fees_false, FeeCalculator.sum_exactInputFee_free]
  obtain ⟨notInputFees, notInputFees_eq, pays, noChange⟩ := funds.pays
  obtain ⟨costOfChange, costOfChange_eq, within⟩ := noChange found
  obtain ⟨_, rfl⟩ := Fees.notInputFees_eq_ok_iff.mp notInputFees_eq
  obtain ⟨pricesChange, rfl⟩ := Fees.costOfChange_eq_ok_iff.mp costOfChange_eq
  rw [Options.exactNotInputFees_false, Options.exactCostOfChange_false, inputFees_eq] at within
  have excess_eq := funds.excessValue_eq
  refine ⟨inputFees_eq, _,
    FeeCalculator.fee_eq_ok_iff_exactFee.mpr ⟨pricesChange.spending, rfl⟩, ?_⟩
  omega

end OtherAsset

/-! ## One request in full -/

/-- Pay the least rate that is relayed, in one of the assets. -/
def assetOptions : Options :=
  { relayOptions with feeAsset := some (.ofByte 1) }

/-- Outputs of another asset. -/
def tokenFilter : Filter :=
  { targetAsset := some (.ofByte 2) }

/-- An output of that asset. -/
def token : Utxo :=
  { outpoint := ⟨⟨Vector.replicate 32 0⟩, 0⟩, amount := 150, asset := some (.ofByte 2) }

/-- The selection of that output alone, for a target of one hundred. -/
def tokenSelection : Selection where
  selected := [token]
  selectedValue := 150
  excessValue := 50
  inputFees := 0
  algorithm := .branchAndBound

/-- It is selected without change where it is the only output that is
accepted. -/
theorem select_token (source : RandomSource) {pool : List Utxo}
    (accepts : tokenFilter.accepted pool = .ok [token]) (drawn : Nat) :
    (select source 100 pool tokenFilter assetOptions).run drawn =
      (.ok tokenSelection, drawn) := by
  have prepared : prepare 100 [token] tokenFilter assetOptions = .ok
      { candidates := [(assetOptions.fees false).candidate token 0]
        target := 100
        strategy := .branchAndBound 204 (.knapsack defaultMinimumChange) } := by
    decide +kernel
  have searched : BranchAndBound.select 204 [(assetOptions.fees false).candidate token 0] 100 =
      .ok [(assetOptions.fees false).candidate token 0] := by
    rw [BranchAndBound.select, BranchAndBound.search, Candidate.largestFirst_singleton]
    decide +kernel
  have totals : Selection.ofCandidates [(assetOptions.fees false).candidate token 0] 100
      .branchAndBound = .ok tokenSelection := by
    rw [Selection.ofCandidates, Selection.offeredOrder_singleton]
    decide +kernel
  exact select_run_of_found (by decide +kernel) accepts (by decide) prepared searched totals drawn

theorem select_otherAsset_excess_le_token :
    ∃ selection,
      (select (fun _ => 0) 100 [token] tokenFilter assetOptions).run 0 = (.ok selection, 0) ∧
        selection.algorithm = .branchAndBound ∧ selection.inputFees = 0 ∧
          ∃ spendingFee,
            (FeeCalculator.ofRate assetOptions.discardRate).fee
                assetOptions.changeSpendSize.toNat = .ok spendingFee ∧
              selection.excessValue ≤ spendingFee := by
  have accepts : tokenFilter.accepted [token] = .ok [token] := by decide +kernel
  have finished := select_token (fun _ => 0) accepts 0
  exact ⟨_, finished, rfl,
    select_otherAsset_excess_le rfl rfl (by decide +kernel) (by decide) finished rfl⟩

/-- The excess over a target in another asset need not be zero. -/
theorem select_otherAsset_excess :
    ∃ selection,
      (select (fun _ => 0) 100 [token] tokenFilter assetOptions).run 0 = (.ok selection, 0) ∧
        selection.algorithm = .branchAndBound ∧ selection.excessValue = 50 :=
  ⟨_, select_token (fun _ => 0) (by decide +kernel) 0, rfl, rfl⟩

end CoinSelection
