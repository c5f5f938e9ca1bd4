import CoinSelection.Proofs.Funding

/-!
# The fee of a whole transaction

A selection pays a fee for every input and one for the rest of the transaction,
and each of them is rounded down.  The fee for the transaction as a whole is
rounded down only once, so it may be more: by one satoshi for every input, and by
no more than that.
-/

namespace CoinSelection

open Checked Outcome

/-! ## Rounding in parts -/

namespace FeeCalculator

/-- Two parts together cost at most one satoshi more than apart. -/
theorem exactFee_add_le (calculator : FeeCalculator) (first second : Nat) :
    calculator.exactFee (first + second) ≤
      calculator.exactFee first + calculator.exactFee second + 1 := by
  have floor_le (size : Nat) : calculator.baseRate * size / 1000 ≤ calculator.exactFee size := by
    unfold exactFee
    split <;> omega
  have firstFloor_le := floor_le first
  have secondFloor_le := floor_le second
  rw [exactFee, Nat.mul_add]
  split
  · omega
  · omega

/-- A part and some more cost at most one satoshi more for each of these than
they do apart. -/
theorem exactFee_add_sum_le (calculator : FeeCalculator) (size : Nat) (sizes : List Nat) :
    calculator.exactFee (size + sizes.sum) ≤
      calculator.exactFee size + (sizes.map calculator.exactFee).sum + sizes.length := by
  induction sizes generalizing size with
  | nil => simp
  | cons next rest ih =>
      have together := ih (size + next)
      have apart := calculator.exactFee_add_le size next
      rw [List.sum_cons, ← Nat.add_assoc, List.map_cons, List.sum_cons, List.length_cons]
      omega

end FeeCalculator

/-! ## The size of a transaction -/

/-- The size of an input is its weight in virtual bytes, where that is a word. -/
theorem Utxo.inputSize_eq_ok_iff {utxo : Utxo} {size : Nat} :
    (utxo.inputWeight >>= weightToVbytes) = .ok size ↔
      utxo.WeightFits ∧ size = utxo.virtualSize := by
  simp only [inputWeight, weightToVbytes, bind_eq_ok_iff, add_eq_ok_iff, pure, Except.pure,
    Except.ok.injEq]
  constructor
  · rintro ⟨_, ⟨_, rfl⟩, _, ⟨fits, rfl⟩, rfl⟩
    exact ⟨fits, rfl⟩
  · rintro ⟨fits, rfl⟩
    unfold WeightFits at fits
    exact ⟨_, ⟨by omega, rfl⟩, _, ⟨fits, rfl⟩, rfl⟩

/-- The size of a transaction that spends outputs, in virtual bytes. -/
def Options.transactionSize (options : Options) (inputs : List Utxo) : Nat :=
  options.noInputsSize.toNat + (inputs.map Utxo.virtualSize).sum

/-- The whole costs at most one satoshi for each input more than its parts. -/
theorem Fees.exactFee_transactionSize_le (fees : Fees) (options : Options) (inputs : List Utxo) :
    fees.effective.exactFee (options.transactionSize inputs) ≤
      fees.exactNotInputFees options + (inputs.map fees.effective.exactInputFee).sum +
        inputs.length := by
  have parts := fees.effective.exactFee_add_sum_le options.noInputsSize.toNat
    (inputs.map Utxo.virtualSize)
  rwa [List.map_map, List.length_map] at parts

/-! ## Selections -/

variable {source : RandomSource} {target : Nat} {pool accepted : List Utxo} {filter : Filter}
  {options : Options} {fees : Fees} {selection : Selection}

/-- A selection exceeds its target by the fees of all parts of the transaction,
or more. -/
theorem Funds.fees_le_excessValue (funds : Funds target accepted fees options selection) :
    fees.exactNotInputFees options + (selection.selected.map fees.effective.exactInputFee).sum ≤
      selection.excessValue := by
  obtain ⟨_, notInputFees_eq, pays, _⟩ := funds.pays
  obtain ⟨_, rfl⟩ := Fees.notInputFees_eq_ok_iff.mp notInputFees_eq
  have excess := funds.excessValue_eq
  rw [← funds.inputFees_eq]
  omega

/-- Where the outputs that pass the filter pay the fees, a selection exceeds its
target by the fee for the whole transaction, or is short of that fee by at most
one satoshi for every input. -/
theorem select_transactionFee_le (positive : 0 < target) (pays : options.paysFee filter = true)
    {drawn later : Nat}
    (finished : (select source target pool filter options).run drawn = (.ok selection, later))
    {transactionFee : Nat}
    (fee_eq : (FeeCalculator.ofRate options.effectiveRate).fee
      (options.transactionSize selection.selected) = .ok transactionFee) :
    (∀ utxo ∈ selection.selected,
        (utxo.inputWeight >>= weightToVbytes) = .ok utxo.virtualSize) ∧
      transactionFee ≤ selection.excessValue + selection.selected.length := by
  have funds := (answered_of_selects positive finished).funds
  rw [Options.passFees, pays] at funds
  constructor
  · intro utxo member
    obtain ⟨prices, _⟩ := FeeCalculator.inputFee_eq_ok_iff.mp (funds.worthwhile utxo member).1
    exact Utxo.inputSize_eq_ok_iff.mpr ⟨prices.weight, rfl⟩
  · obtain ⟨_, rfl⟩ := FeeCalculator.fee_eq_ok_iff_exactFee.mp fee_eq
    calc
      (options.fees true).effective.exactFee (options.transactionSize selection.selected) ≤
          (options.fees true).exactNotInputFees options +
            (selection.selected.map (options.fees true).effective.exactInputFee).sum +
              selection.selected.length :=
        Fees.exactFee_transactionSize_le _ options selection.selected
      _ ≤ selection.excessValue + selection.selected.length :=
        Nat.add_le_add_right funds.fees_le_excessValue _

/-! ## A fee that is short -/

/-- Pay one and a half satoshi for every virtual byte. -/
def fractionalOptions : Options :=
  { effectiveRate := ⟨⟨0x3fc00000⟩⟩ }

/-- An output that pays five hundred and the fees of both parts of a
transaction. -/
def exactOutput : Utxo :=
  { outpoint := ⟨⟨Vector.replicate 32 0⟩, 0⟩, amount := 577 }

/-- It is selected with an excess of sixteen and sixty-one satoshi. -/
theorem select_exactOutput (source : RandomSource) (drawn : Nat) :
    (select source 500 [exactOutput] {} fractionalOptions).run drawn =
      (.ok
        { selected := [exactOutput]
          selectedValue := 577
          excessValue := 77
          inputFees := 61
          algorithm := .branchAndBound },
        drawn) := by
  have prepared : prepare 500 [exactOutput] {} fractionalOptions = .ok
      { candidates := [(fractionalOptions.fees true).candidate exactOutput 0]
        target := 516
        strategy := .branchAndBound 250 (.knapsack defaultMinimumChange) } := by
    decide +kernel
  have searched : BranchAndBound.select 250 [(fractionalOptions.fees true).candidate exactOutput 0]
      516 = .ok [(fractionalOptions.fees true).candidate exactOutput 0] := by
    rw [BranchAndBound.select, BranchAndBound.search, Candidate.largestFirst_singleton]
    decide +kernel
  have totals : Selection.ofCandidates [(fractionalOptions.fees true).candidate exactOutput 0] 516
      .branchAndBound = .ok
        { selected := [exactOutput]
          selectedValue := 577
          excessValue := 61
          inputFees := 61
          algorithm := .branchAndBound } := by
    rw [Selection.ofCandidates, Selection.offeredOrder_singleton]
    decide +kernel
  exact select_run_of_found (by decide +kernel) (by decide +kernel) (by decide) prepared searched
    totals drawn

/-- The transaction as a whole costs seventy-eight, and its one input makes up
for the difference. -/
theorem select_transactionFee_le_exactOutput :
    ∃ selection,
      (select (fun _ => 0) 500 [exactOutput] {} fractionalOptions).run 0 = (.ok selection, 0) ∧
        (FeeCalculator.ofRate fractionalOptions.effectiveRate).fee
            (fractionalOptions.transactionSize selection.selected) = .ok 78 ∧
          selection.excessValue = 77 ∧ 78 ≤ selection.excessValue + selection.selected.length := by
  have finished := select_exactOutput (fun _ => 0) 0
  refine ⟨_, finished, by decide +kernel, rfl, ?_⟩
  exact (select_transactionFee_le (by decide) rfl finished (by decide +kernel)).2

end CoinSelection
