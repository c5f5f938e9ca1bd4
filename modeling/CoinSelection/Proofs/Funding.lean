import CoinSelection.Proofs.Answers

/-!
# Funding

A selection that answers a request consists of accepted outputs in their order,
each worth more than it costs to spend.  Its totals are exact, and what the
outputs leave after their fees pays the target and the fees for the rest of the
transaction.  Without change it pays no more than a change output would cost.
-/

namespace CoinSelection

open Checked Outcome

/-! ## Selected outputs -/

section Selected

variable {fees : Fees} {accepted : List Utxo} {chosen : List Candidate}

/-- The outputs of some of the candidates, in the order of the offer. -/
theorem Selection.selected_sublist (subperm : chosen.Subperm (fees.candidates 0 accepted)) :
    ((Selection.offeredOrder chosen).map Candidate.utxo).Sublist accepted :=
  ((Selection.offeredOrder_sublist Fees.candidates_increasing subperm).map Candidate.utxo).trans
    Fees.candidates_sublist

theorem Selection.selected_amounts (chosen : List Candidate) :
    totalAmount ((Selection.offeredOrder chosen).map Candidate.utxo) =
      Candidate.amounts chosen := by
  rw [totalAmount, List.map_map]
  exact Candidate.amounts_perm (Selection.offeredOrder_perm chosen)

/-- The fees of the selected outputs are those of their candidates. -/
theorem Selection.selected_fees (subperm : chosen.Subperm (fees.candidates 0 accepted)) :
    (((Selection.offeredOrder chosen).map Candidate.utxo).map fees.effective.exactInputFee).sum =
      Candidate.fees chosen := by
  have perm := Selection.offeredOrder_perm chosen
  rw [← Candidate.fees_perm perm, List.map_map, Candidate.fees]
  congr 1
  apply List.map_congr_left
  intro candidate member
  rw [(Fees.mem_candidates (subperm.subset (perm.subset member))).1]
  rfl

/-- Every selected output has a fee, and its amount exceeds it. -/
theorem Selection.selected_worthwhile (fits : (totalAmount accepted : Int) ≤ greatestSigned)
    (prices : ∀ utxo ∈ accepted, fees.Prices utxo)
    (subperm : chosen.Subperm (fees.candidates 0 accepted)) {utxo : Utxo}
    (member : utxo ∈ (Selection.offeredOrder chosen).map Candidate.utxo) :
    fees.effective.inputFee utxo = .ok (fees.effective.exactInputFee utxo) ∧
      fees.effective.exactInputFee utxo < utxo.amount.toNat := by
  obtain ⟨candidate, candidateMember, rfl⟩ := List.mem_map.mp member
  obtain ⟨candidate_eq, utxoMember, positive⟩ := Fees.mem_candidates
    (subperm.subset ((Selection.offeredOrder_perm chosen).subset candidateMember))
  have amount_le := amount_le_totalAmount utxoMember
  rw [candidate_eq] at positive
  exact ⟨FeeCalculator.inputFee_eq_ok_iff.mpr ⟨(prices _ utxoMember).effective, rfl⟩,
    (Fees.effectiveValue_pos_iff (by omega)).mp positive⟩

end Selected

/-! ## Funding a target -/

/-- A selection of accepted outputs pays for a target and accounts for it, at
the rates of these calculators. -/
structure Funds (target : Nat) (accepted : List Utxo) (fees : Fees) (options : Options)
    (selection : Selection) : Prop where
  /-- The outputs are accepted ones in their order, none of them twice. -/
  sublist : selection.selected.Sublist accepted
  worthwhile : ∀ utxo ∈ selection.selected,
    fees.effective.inputFee utxo = .ok (fees.effective.exactInputFee utxo) ∧
      fees.effective.exactInputFee utxo < utxo.amount.toNat
  selectedValue_eq : selection.selectedValue = totalAmount selection.selected
  inputFees_eq :
    selection.inputFees = (selection.selected.map fees.effective.exactInputFee).sum
  /-- The excess is the difference itself, not a saturated one. -/
  excessValue_eq : target + selection.excessValue = selection.selectedValue
  pays : ∃ notInputFees, fees.notInputFees options = .ok notInputFees ∧
    target + notInputFees + selection.inputFees ≤ selection.selectedValue ∧
      (selection.algorithm = .branchAndBound →
        ∃ costOfChange, fees.costOfChange options = .ok costOfChange ∧
          selection.selectedValue ≤
            target + notInputFees + selection.inputFees + costOfChange)

variable {source : RandomSource} {target : Nat} {pool accepted : List Utxo} {filter : Filter}
  {options : Options} {fees : Fees}

/-- An answer that is a selection funds the target. -/
theorem Answered.funds {selection : Selection}
    (answered : Answered target accepted fees options (.ok selection)) :
    Funds target accepted fees options selection := by
  generalize outcome_eq : Except.ok selection = outcome at answered
  cases answered with
  | nothingAccepted => cases outcome_eq
  | totalTooLarge => cases outcome_eq
  | targetTooLarge => cases outcome_eq
  | short => cases outcome_eq
  | @selects ready chosen algorithm subperm reaches noChange =>
      obtain rfl := Except.ok.inj outcome_eq
      have balance := (ready.economic.subperm subperm).worth_add_fees
      refine {
        sublist := Selection.selected_sublist subperm
        worthwhile := fun utxo member =>
          Selection.selected_worthwhile ready.fits ready.prices subperm member
        selectedValue_eq := (Selection.selected_amounts chosen).symm
        inputFees_eq := (Selection.selected_fees subperm).symm
        excessValue_eq := ?_
        pays := ⟨fees.exactNotInputFees options,
          Fees.notInputFees_eq_ok_iff.mpr ⟨ready.product, rfl⟩, ?_, fun algorithm_eq => ?_⟩ }
      · change target + (Candidate.amounts chosen - target) = Candidate.amounts chosen
        omega
      · change target + fees.exactNotInputFees options + Candidate.fees chosen ≤
          Candidate.amounts chosen
        omega
      · obtain ⟨searches, within⟩ := noChange algorithm_eq
        refine ⟨fees.exactCostOfChange options,
          Fees.costOfChange_eq_ok_iff.mpr ⟨ready.pricesChange searches, rfl⟩, ?_⟩
        change Candidate.amounts chosen ≤ target + fees.exactNotInputFees options +
          Candidate.fees chosen + fees.exactCostOfChange options
        omega

/-! ## Selections of any target -/

/-- The totals of a selection are words, and together the selected outputs are
worth the target and the excess. -/
structure Selection.Balanced (target : Nat) (pool : List Utxo) (selection : Selection) : Prop where
  sublist : selection.selected.Sublist pool
  selectedValue_eq : selection.selectedValue = totalAmount selection.selected
  fits : selection.selectedValue < wordBound
  excessValue_eq : target + selection.excessValue = selection.selectedValue
  inputFees_le : selection.inputFees ≤ selection.selectedValue

theorem Selection.Balanced.excessValue_lt {selection : Selection}
    (balanced : selection.Balanced target pool) : selection.excessValue < wordBound :=
  calc
    selection.excessValue ≤ target + selection.excessValue := Nat.le_add_left _ _
    _ = selection.selectedValue := balanced.excessValue_eq
    _ < wordBound := balanced.fits

/-- Every selection is balanced, also the empty one for a target of zero. -/
theorem balanced_of_selects {drawn later : Nat} {selection : Selection}
    (finished : (select source target pool filter options).run drawn = (.ok selection, later)) :
    selection.Balanced target pool := by
  rcases Nat.eq_zero_or_pos target with rfl | positive
  · have nothing : (select source 0 pool filter options).run drawn = (.ok .empty, drawn) :=
      select_run_of_zero (validate_of_selects finished) (accepted_of_selects finished) drawn
    rw [finished] at nothing
    obtain rfl : selection = .empty := Except.ok.inj (Prod.mk.inj nothing).1
    exact {
      sublist := List.nil_sublist pool
      selectedValue_eq := rfl
      fits := by decide
      excessValue_eq := rfl
      inputFees_le := le_rfl }
  · have answered := answered_of_selects positive finished
    have funds := answered.funds
    rcases funds.pays with ⟨notInputFees, -, pays, -⟩
    have fits := answered.ready.fits
    have total_le := totalAmount_sublist funds.sublist
    have selectedValue_eq := funds.selectedValue_eq
    exact {
      sublist := funds.sublist.trans List.filter_sublist
      selectedValue_eq
      fits := by
        simp only [greatestSigned] at fits
        simp only [wordBound]
        omega
      excessValue_eq := funds.excessValue_eq
      inputFees_le := by omega }

/-! ## Every selection funds its target -/

/-- Whatever the source draws, a selection that pays a positive target consists
of outputs that the filter admits and funds the target, at the rates of its
pass. -/
theorem select_funds {drawn later : Nat} {selection : Selection} (positive : 0 < target)
    (finished : (select source target pool filter options).run drawn = (.ok selection, later)) :
    filter.accepted pool = .ok (pool.filter filter.admits) ∧
      Funds target (pool.filter filter.admits) (options.fees (options.paysFee filter)) options
        selection := by
  have validated := validate_of_selects finished
  have outcome_eq : ((select source target pool filter options).run drawn).1 = .ok selection := by
    rw [finished]
  have notAborted : ¬ Aborts ((select source target pool filter options).run drawn).1 := by
    rw [outcome_eq]
    exact not_aborts_ok selection
  have answered := select_answered validated positive notAborted
  rw [outcome_eq] at answered
  exact ⟨exists_accepted validated notAborted, answered.funds⟩

theorem select_funds_twoOutputs :
    ∃ selection, (select (fun _ => 0) 500 twoOutputs {} relayOptions).run 0 = (.ok selection, 0) ∧
      selection.algorithm = .branchAndBound ∧
        Funds 500 (twoOutputs.filter (Filter.admits {}))
          (relayOptions.fees (relayOptions.paysFee {})) relayOptions selection :=
  have finished := select_twoOutputs (fun _ => 0) 0
  ⟨_, finished, rfl, (select_funds (by decide) finished).2⟩

end CoinSelection
