import CoinSelection.Proofs.Strategy

/-!
# Preparing a selection

Before a strategy is asked, the accepted outputs are added up and priced and
the target is raised by the fees that do not depend on the inputs.  This file
says all that preparation can answer, and that it leaves economic candidates:
the outputs worth spending, numbered, at their exact prices.
-/

namespace CoinSelection

open Checked Outcome

/-- The sum of the amounts of outputs. -/
def totalAmount (utxos : List Utxo) : Nat :=
  (utxos.map fun utxo => utxo.amount.toNat).sum

theorem totalAmount_perm {first second : List Utxo} (perm : first.Perm second) :
    totalAmount first = totalAmount second :=
  (perm.map _).sum_eq

theorem totalAmount_append (first second : List Utxo) :
    totalAmount (first ++ second) = totalAmount first + totalAmount second := by
  rw [totalAmount, List.map_append, List.sum_append]
  rfl

theorem totalAmount_sublist {part whole : List Utxo} (sublist : part.Sublist whole) :
    totalAmount part ≤ totalAmount whole :=
  (sublist.map _).sum_le_sum (by simp)

theorem totalAmount_subperm {part whole : List Utxo} (subperm : part.Subperm whole) :
    totalAmount part ≤ totalAmount whole := by
  rcases subperm with ⟨arranged, perm, sublist⟩
  exact (totalAmount_perm perm).symm.trans_le (totalAmount_sublist sublist)

theorem amount_le_totalAmount {utxo : Utxo} {utxos : List Utxo} (member : utxo ∈ utxos) :
    utxo.amount.toNat ≤ totalAmount utxos := by
  simpa [totalAmount] using totalAmount_sublist (List.singleton_sublist.mpr member)

theorem availableValue?_eq_some_iff {pool : List Utxo} {available : Nat} :
    availableValue? pool = some available ↔
      (totalAmount pool : Int) ≤ greatestSigned ∧ available = totalAmount pool := by
  change (if (totalAmount pool : Int) ≤ greatestSigned then some (totalAmount pool) else none) =
    some available ↔ _
  split <;> simp_all [eq_comm]

/-! ## The fees of a pass -/

/-- The calculators for the outputs that pass a filter. -/
def Options.passFees (options : Options) (filter : Filter) : Fees :=
  options.fees (options.paysFee filter)

namespace Fees

/-- The exact fee for the parts of the transaction that are not inputs. -/
def exactNotInputFees (fees : Fees) (options : Options) : Nat :=
  fees.effective.exactFee options.noInputsSize.toNat

/-- What a change output costs exactly. -/
def exactCostOfChange (fees : Fees) (options : Options) : Nat :=
  fees.discard.exactFee options.changeSpendSize.toNat +
    fees.effective.exactFee options.changeOutputSize.toNat

/-- The products for the cost of a change output are words. -/
structure PricesChange (fees : Fees) (options : Options) : Prop where
  spending : fees.discard.baseRate * options.changeSpendSize.toNat < wordBound
  creating : fees.effective.baseRate * options.changeOutputSize.toNat < wordBound

/-- The words that are formed for pricing an output fit. -/
structure Prices (fees : Fees) (utxo : Utxo) : Prop where
  effective : fees.effective.Prices utxo
  longTerm : fees.longTerm.Prices utxo

theorem notInputFees_eq_ok_iff {fees : Fees} {options : Options} {value : Nat} :
    fees.notInputFees options = .ok value ↔
      fees.effective.baseRate * options.noInputsSize.toNat < wordBound ∧
        value = fees.exactNotInputFees options :=
  FeeCalculator.fee_eq_ok_iff_exactFee

theorem not_refuses_notInputFees {fees : Fees} {options : Options} :
    ¬ Refuses (fees.notInputFees options) :=
  FeeCalculator.not_refuses_fee _ _

end Fees

/-- What the outputs that are worth more than their fees leave after these. -/
def FeeCalculator.worth (calculator : FeeCalculator) (utxos : List Utxo) : Nat :=
  ((utxos.filter fun utxo => calculator.exactInputFee utxo < utxo.amount.toNat).map
    fun utxo => utxo.amount.toNat - calculator.exactInputFee utxo).sum

/-- An output that costs more than its amount leaves nothing. -/
theorem FeeCalculator.worth_eq_sum (calculator : FeeCalculator) (utxos : List Utxo) :
    calculator.worth utxos =
      (utxos.map fun utxo => utxo.amount.toNat - calculator.exactInputFee utxo).sum := by
  unfold worth
  induction utxos with
  | nil => rfl
  | cons utxo rest ih =>
      rw [List.filter_cons, List.map_cons, List.sum_cons, ← ih]
      by_cases worthwhile : calculator.exactInputFee utxo < utxo.amount.toNat
      · rw [if_pos (decide_eq_true worthwhile), List.map_cons, List.sum_cons]
      · rw [if_neg (by simpa using worthwhile), Nat.sub_eq_zero_of_le (not_lt.mp worthwhile),
          Nat.zero_add]

/-- More outputs leave more, and so does a lower rate. -/
theorem FeeCalculator.worth_mono {cheaper dearer : FeeCalculator} {part whole : List Utxo}
    (rate_le : cheaper.baseRate ≤ dearer.baseRate) (sublist : part.Sublist whole) :
    dearer.worth part ≤ cheaper.worth whole := by
  rw [worth_eq_sum, worth_eq_sum]
  calc
    (part.map fun utxo => utxo.amount.toNat - dearer.exactInputFee utxo).sum ≤
        (part.map fun utxo => utxo.amount.toNat - cheaper.exactInputFee utxo).sum :=
      List.sum_le_sum fun utxo _ => Nat.sub_le_sub_left (exactFee_mono rate_le le_rfl) _
    _ ≤ (whole.map fun utxo => utxo.amount.toNat - cheaper.exactInputFee utxo).sum :=
      (sublist.map _).sum_le_sum fun _ _ => Nat.zero_le _

/-- The outputs leave no more than their amounts. -/
theorem FeeCalculator.worth_le_totalAmount (calculator : FeeCalculator) (utxos : List Utxo) :
    calculator.worth utxos ≤ totalAmount utxos := by
  have part := totalAmount_sublist (List.filter_sublist (l := utxos)
    (p := fun utxo => calculator.exactInputFee utxo < utxo.amount.toNat))
  refine le_trans (List.sum_le_sum fun utxo _ => ?_) part
  exact Nat.sub_le _ _

/-- A fee is small next to the word that it was divided out of. -/
theorem FeeCalculator.exactFee_lt {calculator : FeeCalculator} {size : Nat}
    (fits : calculator.baseRate * size < wordBound) :
    calculator.exactFee size < 18446744073709552 := by
  unfold exactFee
  simp only [wordBound] at fits
  split <;> omega

namespace Fees

theorem costOfChange_eq_ok_iff {fees : Fees} {options : Options} {value : Nat} :
    fees.costOfChange options = .ok value ↔
      fees.PricesChange options ∧ value = fees.exactCostOfChange options := by
  simp only [costOfChange, bind_eq_ok_iff, FeeCalculator.fee_eq_ok_iff_exactFee, add_eq_ok_iff]
  constructor
  · rintro ⟨spending, ⟨spendingFits, rfl⟩, creating, ⟨creatingFits, rfl⟩, _, rfl⟩
    exact ⟨⟨spendingFits, creatingFits⟩, rfl⟩
  · rintro ⟨⟨spendingFits, creatingFits⟩, rfl⟩
    have spending_lt := FeeCalculator.exactFee_lt spendingFits
    have creating_lt := FeeCalculator.exactFee_lt creatingFits
    refine ⟨_, ⟨spendingFits, rfl⟩, _, ⟨creatingFits, rfl⟩, ?_, rfl⟩
    simp only [wordBound]
    omega

theorem not_refuses_costOfChange (fees : Fees) (options : Options) :
    ¬ Refuses (fees.costOfChange options) := by
  simp [costOfChange, refuses_bind_iff, FeeCalculator.not_refuses_fee, add]

/-! ## The candidates of a pass -/

/-- An output at its exact price. -/
def candidate (fees : Fees) (utxo : Utxo) (position : Nat) : Candidate where
  utxo
  fee := fees.effective.exactInputFee utxo
  longTermFee := fees.longTerm.exactInputFee utxo
  effectiveValue :=
    clampSigned utxo.amount.toNat - clampSigned (fees.effective.exactInputFee utxo)
  position

/-- The outputs that are worth spending, numbered from a position. -/
def candidates (fees : Fees) (position : Nat) (utxos : List Utxo) : List Candidate :=
  ((utxos.zipIdx position).map fun entry => fees.candidate entry.1 entry.2).filter
    fun candidate => 0 < candidate.effectiveValue

variable {fees : Fees} {utxo : Utxo} {utxos : List Utxo} {position : Nat}

/-- The number is not part of the price, so any will do for the test. -/
theorem candidates_cons (fees : Fees) (position : Nat) (utxo : Utxo) (rest : List Utxo) :
    fees.candidates position (utxo :: rest) =
      if 0 < (fees.candidate utxo 0).effectiveValue then
        fees.candidate utxo position :: fees.candidates (position + 1) rest
      else fees.candidates (position + 1) rest := by
  have sameWorth : (fees.candidate utxo position).effectiveValue =
      (fees.candidate utxo 0).effectiveValue := rfl
  simp [candidates, List.filter_cons, sameWorth]

theorem price_eq_ok_iff {priced : Candidate} :
    Candidate.price fees.effective fees.longTerm utxo = .ok priced ↔
      fees.Prices utxo ∧ priced = fees.candidate utxo 0 := by
  simp only [Candidate.price, bind_eq_ok_iff, FeeCalculator.inputFee_eq_ok_iff, pure, Except.pure,
    Except.ok.injEq]
  constructor
  · rintro ⟨_, ⟨effective, rfl⟩, _, ⟨longTerm, rfl⟩, rfl⟩
    exact ⟨⟨effective, longTerm⟩, rfl⟩
  · rintro ⟨⟨effective, longTerm⟩, rfl⟩
    exact ⟨_, ⟨effective, rfl⟩, _, ⟨longTerm, rfl⟩, rfl⟩

theorem not_refuses_price : ¬ Refuses (Candidate.price fees.effective fees.longTerm utxo) := by
  simp [Candidate.price, refuses_bind_iff, FeeCalculator.not_refuses_inputFee, pure, Except.pure]

/-- Pricing gives the exact candidates where every output can be priced. -/
theorem economicCandidates_eq_ok_iff {priced : List Candidate} :
    economicCandidates fees position utxos = .ok priced ↔
      (∀ utxo ∈ utxos, fees.Prices utxo) ∧ priced = fees.candidates position utxos := by
  induction utxos generalizing position priced with
  | nil => simp [economicCandidates, candidates, eq_comm]
  | cons utxo rest ih =>
      simp only [economicCandidates, bind_eq_ok_iff, price_eq_ok_iff, ih, List.forall_mem_cons]
      rw [candidates_cons]
      constructor
      · rintro ⟨_, ⟨fits, rfl⟩, _, ⟨restFits, rfl⟩, found⟩
        refine ⟨⟨fits, restFits⟩, ?_⟩
        split at found <;> simp_all [pure, Except.pure, candidate]
      · rintro ⟨⟨fits, restFits⟩, rfl⟩
        refine ⟨_, ⟨fits, rfl⟩, _, ⟨restFits, rfl⟩, ?_⟩
        split <;> rfl

theorem not_refuses_economicCandidates : ¬ Refuses (economicCandidates fees position utxos) := by
  induction utxos generalizing position with
  | nil => simp [economicCandidates]
  | cons utxo rest ih =>
      simp only [economicCandidates, refuses_bind_iff, not_refuses_price, ih, false_or,
        not_exists, not_and]
      intro _ _ _ _
      split <;> simp [pure, Except.pure]

/-! ## Candidates and the outputs that they come from -/

/-- The candidates come from some of the outputs, in their order. -/
theorem candidates_sublist :
    ((fees.candidates position utxos).map Candidate.utxo).Sublist utxos := by
  have all : ((utxos.zipIdx position).map fun entry => fees.candidate entry.1 entry.2).map
      Candidate.utxo = utxos := by
    rw [List.map_map]
    exact List.zipIdx_map_fst position utxos
  have part := (List.filter_sublist (p := fun priced : Candidate => 0 < priced.effectiveValue)
    (l := (utxos.zipIdx position).map fun entry => fees.candidate entry.1 entry.2)).map
      Candidate.utxo
  rwa [all] at part

/-- The candidates are numbered in their order. -/
theorem candidates_increasing :
    (fees.candidates position utxos).Pairwise fun first second =>
      first.position < second.position := by
  apply List.Pairwise.filter
  rw [List.pairwise_map]
  induction utxos generalizing position with
  | nil => simp
  | cons utxo rest ih =>
      rw [List.zipIdx_cons, List.pairwise_cons]
      refine ⟨fun entry member => ?_, ih⟩
      have later := (List.mem_zipIdx member).1
      simpa [candidate] using Nat.lt_of_succ_le later

theorem mem_candidates {priced : Candidate} (member : priced ∈ fees.candidates position utxos) :
    priced = fees.candidate priced.utxo priced.position ∧ priced.utxo ∈ utxos ∧
      0 < priced.effectiveValue := by
  have utxoMember := candidates_sublist.subset (List.mem_map_of_mem member)
  simp only [candidates, List.mem_filter, List.mem_map, decide_eq_true_eq] at member
  obtain ⟨⟨entry, _, rfl⟩, positive⟩ := member
  exact ⟨rfl, utxoMember, positive⟩

/-- An output is worth spending exactly when its amount exceeds its fee. -/
theorem effectiveValue_pos_iff (fits : (utxo.amount.toNat : Int) ≤ greatestSigned) :
    0 < (fees.candidate utxo position).effectiveValue ↔
      fees.effective.exactInputFee utxo < utxo.amount.toNat := by
  simp only [candidate, clampSigned] at fits ⊢
  omega

/-- The effective value of an output worth spending is exact. -/
theorem effectiveValue_eq (fits : (utxo.amount.toNat : Int) ≤ greatestSigned)
    (positive : 0 < (fees.candidate utxo position).effectiveValue) :
    (fees.candidate utxo position).effectiveValue =
      utxo.amount.toNat - fees.effective.exactInputFee utxo := by
  simp only [candidate, clampSigned] at fits positive ⊢
  omega

theorem economic_candidates (fits : (totalAmount utxos : Int) ≤ greatestSigned) :
    Candidate.Economic (fees.candidates position utxos) where
  positive priced member := (mem_candidates member).2.2
  exact priced member := by
    obtain ⟨priced_eq, utxoMember, positive⟩ := mem_candidates member
    have amount_le := amount_le_totalAmount utxoMember
    rw [priced_eq] at positive ⊢
    exact effectiveValue_eq (by omega) positive
  fits := by
    have amounts_le : Candidate.amounts (fees.candidates position utxos) ≤ totalAmount utxos := by
      have part := totalAmount_sublist (@candidates_sublist fees utxos position)
      rwa [totalAmount, List.map_map] at part
    omega

/-- The candidates are worth what the outputs leave after their fees. -/
theorem worth_candidates (fits : (totalAmount utxos : Int) ≤ greatestSigned) :
    Candidate.worth (fees.candidates position utxos) = fees.effective.worth utxos := by
  induction utxos generalizing position with
  | nil => rfl
  | cons utxo rest ih =>
      have amount_le := amount_le_totalAmount (List.mem_cons_self (a := utxo) (l := rest))
      have rest_le := totalAmount_sublist (List.sublist_cons_self utxo rest)
      have utxoFits : (utxo.amount.toNat : Int) ≤ greatestSigned := by omega
      have rest_eq :
          Candidate.worth (fees.candidates (position + 1) rest) = fees.effective.worth rest :=
        ih (by omega)
      simp only [candidates, FeeCalculator.worth, List.zipIdx_cons, List.map_cons, List.filter_cons,
        decide_eq_true_eq, effectiveValue_pos_iff utxoFits] at rest_eq ⊢
      split
      · rename_i worthwhile
        have positive : 0 < (fees.candidate utxo position).effectiveValue :=
          (effectiveValue_pos_iff utxoFits).mpr worthwhile
        simp only [Candidate.worth_cons, List.map_cons, List.sum_cons, rest_eq,
          effectiveValue_eq utxoFits positive]
        omega
      · exact rest_eq

end Fees

/-! ## The strategy -/

/-- The strategy that the options ask for, at the exact cost of change. -/
def Options.exactStrategy (options : Options) (fees : Fees) : Strategy :=
  if options.useBranchAndBound then
    .branchAndBound (fees.exactCostOfChange options) (.knapsack options.minimumChange)
  else
    .knapsack options.minimumChange

/-- A strategy searches for a selection without change where the options ask
for it, with the exact cost of change. -/
theorem Options.mem_costs_exactStrategy {options : Options} {fees : Fees} {costOfChange : Nat} :
    costOfChange ∈ (options.exactStrategy fees).costs ↔
      options.useBranchAndBound = true ∧ costOfChange = fees.exactCostOfChange options := by
  unfold Options.exactStrategy
  split <;> simp_all [Strategy.costs]

theorem strategyFor_eq_ok_iff {options : Options} {fees : Fees} {strategy : Strategy} :
    strategyFor options fees = .ok strategy ↔
      (options.useBranchAndBound = true → fees.PricesChange options) ∧
        strategy = options.exactStrategy fees := by
  unfold strategyFor Options.exactStrategy
  cases options.useBranchAndBound with
  | false => simp [eq_comm]
  | true =>
      simp only [if_true, bind_eq_ok_iff, Fees.costOfChange_eq_ok_iff, pure, Except.pure,
        Except.ok.injEq, true_implies]
      constructor
      · rintro ⟨_, ⟨prices, rfl⟩, rfl⟩
        exact ⟨prices, rfl⟩
      · rintro ⟨prices, rfl⟩
        exact ⟨_, ⟨prices, rfl⟩, rfl⟩

theorem not_refuses_strategyFor (options : Options) (fees : Fees) :
    ¬ Refuses (strategyFor options fees) := by
  unfold strategyFor
  split
  · simp [refuses_bind_iff, Fees.not_refuses_costOfChange, pure, Except.pure]
  · simp

/-! ## What preparation answers -/

deriving instance DecidableEq for Task

/-- Everything that is formed before a strategy is asked fits. -/
structure Ready (target : Nat) (accepted : List Utxo) (fees : Fees) (options : Options) :
    Prop where
  nonempty : accepted ≠ []
  fits : (totalAmount accepted : Int) ≤ greatestSigned
  product : fees.effective.baseRate * options.noInputsSize.toNat < wordBound
  targetFits : ((target + fees.exactNotInputFees options : Nat) : Int) ≤ greatestSigned
  prices : ∀ utxo ∈ accepted, fees.Prices utxo
  pricesChange : options.useBranchAndBound = true → fees.PricesChange options

/-- All that preparation can answer, unless it aborts. -/
inductive Prepared (target : Nat) (accepted : List Utxo) (fees : Fees) (options : Options) :
    Outcome Task → Prop
  | nothingAccepted (empty : accepted = []) :
      Prepared target accepted fees options (refuse (.insufficientFunds target 0))
  | totalTooLarge (large : greatestSigned < totalAmount accepted) :
      Prepared target accepted fees options (refuse .totalOverflow)
  | targetTooLarge (nonempty : accepted ≠ [])
      (fits : (totalAmount accepted : Int) ≤ greatestSigned)
      (product : fees.effective.baseRate * options.noInputsSize.toNat < wordBound)
      (large : greatestSigned < (target + fees.exactNotInputFees options : Nat)) :
      Prepared target accepted fees options
        (refuse (.insufficientFunds (saturatingAdd target (fees.exactNotInputFees options))
          (totalAmount accepted)))
  | ready (ready : Ready target accepted fees options) :
      Prepared target accepted fees options
        (.ok
          { candidates := fees.candidates 0 accepted
            target := target + fees.exactNotInputFees options
            strategy := options.exactStrategy fees })

variable {target : Nat} {accepted : List Utxo} {filter : Filter} {options : Options}

/-- Accepted outputs are added up before anything is priced. -/
private theorem prepare_of_fits (nonempty : accepted ≠ [])
    (fits : (totalAmount accepted : Int) ≤ greatestSigned) :
    prepare target accepted filter options = (do
      let notInputFees ← (options.passFees filter).notInputFees options
      let target ← actualTarget target notInputFees (totalAmount accepted)
      let candidates ← economicCandidates (options.passFees filter) 0 accepted
      let strategy ← strategyFor options (options.passFees filter)
      pure { candidates, target, strategy }) := by
  simp only [prepare, List.isEmpty_eq_false_iff.mpr nonempty,
    availableValue?_eq_some_iff.mpr ⟨fits, rfl⟩]
  rfl

private theorem prepare_of_overflow (large : greatestSigned < totalAmount accepted) :
    prepare target accepted filter options = refuse .totalOverflow := by
  have nonempty : accepted ≠ [] := by
    rintro rfl
    exact absurd large (by decide)
  have unavailable : availableValue? accepted = none := by
    rw [Option.eq_none_iff_forall_not_mem]
    intro available found
    exact absurd (availableValue?_eq_some_iff.mp found).1 (not_le.mpr large)
  simp only [prepare, List.isEmpty_eq_false_iff.mpr nonempty, unavailable]
  rfl

/-- Preparation gives no other answer, unless it aborts. -/
theorem prepared_of_prepare
    (finished : ¬ Aborts (prepare target accepted filter options)) :
    Prepared target accepted (options.passFees filter) options
      (prepare target accepted filter options) := by
  by_cases nonempty : accepted = []
  · subst nonempty
    exact .nothingAccepted rfl
  by_cases fits : (totalAmount accepted : Int) ≤ greatestSigned
  · rw [prepare_of_fits nonempty fits] at finished ⊢
    obtain ⟨_, fee_eq, step⟩ := bind_eq_next Fees.not_refuses_notInputFees finished
    obtain ⟨product, rfl⟩ := Fees.notInputFees_eq_ok_iff.mp fee_eq
    rw [step] at finished ⊢
    by_cases targetFits : ((target + (options.passFees filter).exactNotInputFees options :
        Nat) : Int) ≤ greatestSigned
    · rw [actualTarget, if_pos targetFits, ok_bind] at finished ⊢
      obtain ⟨_, candidates_eq, step⟩ :=
        bind_eq_next Fees.not_refuses_economicCandidates finished
      obtain ⟨prices, rfl⟩ := Fees.economicCandidates_eq_ok_iff.mp candidates_eq
      rw [step] at finished ⊢
      obtain ⟨_, strategy_eq, step⟩ := bind_eq_next (not_refuses_strategyFor _ _) finished
      obtain ⟨pricesChange, rfl⟩ := strategyFor_eq_ok_iff.mp strategy_eq
      rw [step]
      exact .ready ⟨nonempty, fits, product, targetFits, prices, pricesChange⟩
    · rw [actualTarget, if_neg targetFits]
      exact .targetTooLarge nonempty fits product (not_le.mp targetFits)
  · rw [prepare_of_overflow (not_le.mp fits)]
    exact .totalTooLarge (not_le.mp fits)

/-- Preparation gives each of these answers. -/
theorem Prepared.prepare_eq {outcome : Outcome Task}
    (prepared : Prepared target accepted (options.passFees filter) options outcome) :
    prepare target accepted filter options = outcome := by
  cases prepared with
  | nothingAccepted empty =>
      subst empty
      rfl
  | totalTooLarge large => exact prepare_of_overflow large
  | targetTooLarge nonempty fits product large =>
      rw [prepare_of_fits nonempty fits, Fees.notInputFees_eq_ok_iff.mpr ⟨product, rfl⟩,
        ok_bind, actualTarget, if_neg (not_le.mpr large)]
      rfl
  | ready ready =>
      obtain ⟨nonempty, fits, product, targetFits, prices, pricesChange⟩ := ready
      rw [prepare_of_fits nonempty fits, Fees.notInputFees_eq_ok_iff.mpr ⟨product, rfl⟩,
        ok_bind, actualTarget, if_pos targetFits, ok_bind,
        Fees.economicCandidates_eq_ok_iff.mpr ⟨prices, rfl⟩, ok_bind,
        strategyFor_eq_ok_iff.mpr ⟨pricesChange, rfl⟩]
      rfl

theorem Prepared.not_aborts {fees : Fees} {outcome : Outcome Task}
    (prepared : Prepared target accepted fees options outcome) : ¬ outcome.Aborts := by
  cases prepared <;> simp [refuse]

/-- Preparation gives exactly these answers. -/
theorem prepare_eq_iff {outcome : Outcome Task} :
    prepare target accepted filter options = outcome ∧ ¬ outcome.Aborts ↔
      Prepared target accepted (options.passFees filter) options outcome := by
  constructor
  · rintro ⟨rfl, finished⟩
    exact prepared_of_prepare finished
  · intro prepared
    exact ⟨prepared.prepare_eq, prepared.not_aborts⟩

end CoinSelection
