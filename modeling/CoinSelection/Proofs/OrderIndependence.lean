import CoinSelection.Proofs.Answers
import CoinSelection.Proofs.BranchAndBound.Renumbering
import CoinSelection.Proofs.Knapsack.Renumbering

/-!
# Order independence

Offering the same outputs in another order changes the positions of the
candidates and the order in which they are priced.  Searches see neither, as
long as no two outputs have the same outpoint.  So the answer is the same, up to
the order in which the selected outputs are listed, and as many words are drawn.
-/

namespace CoinSelection

open Checked Outcome

/-! ## The same answer -/

/-- Two runs select the same outputs with the same totals in the same way, or
they fail with the same error, and they draw as many words. -/
inductive SameAnswer : Outcome Selection × Nat → Outcome Selection × Nat → Prop
  | selects {first second : Selection} (selected : first.selected.Perm second.selected)
      (selectedValue : first.selectedValue = second.selectedValue)
      (excessValue : first.excessValue = second.excessValue)
      (inputFees : first.inputFees = second.inputFees)
      (algorithm : first.algorithm = second.algorithm) (drawn : Nat) :
      SameAnswer (.ok first, drawn) (.ok second, drawn)
  | refuses (error : Error) (drawn : Nat) : SameAnswer (refuse error, drawn) (refuse error, drawn)

theorem SameAnswer.refl {outcome : Outcome Selection} (finished : ¬ outcome.Aborts) (drawn : Nat) :
    SameAnswer (outcome, drawn) (outcome, drawn) := by
  rcases not_aborts_iff.mp finished with ⟨selection, rfl⟩ | ⟨error, rfl⟩
  · exact .selects (.refl _) rfl rfl rfl rfl drawn
  · exact .refuses error drawn

/-- The excess over another target follows from the same totals. -/
theorem SameAnswer.paying {first second : Outcome Selection × Nat} (same : SameAnswer first second)
    (target : Nat) :
    SameAnswer (first.1.map (Selection.paying target), first.2)
      (second.1.map (Selection.paying target), second.2) := by
  cases same with
  | @selects one other selected selectedValue excessValue inputFees algorithm drawn =>
      have excess_eq : one.selectedValue - target = other.selectedValue - target := by
        rw [selectedValue]
      exact @SameAnswer.selects (one.paying target) (other.paying target) selected selectedValue
        excess_eq inputFees algorithm drawn
  | refuses error drawn => exact .refuses error drawn

/-! ## The same candidates -/

namespace Candidate

/-- Forget the position of a candidate. -/
def unplaced : Candidate → Candidate :=
  renumber fun _ => 0

/-- The same candidates, in another order and at other positions. -/
def SameUpToOrder (first second : List Candidate) : Prop :=
  (first.map unplaced).Perm (second.map unplaced)

end Candidate

/-- Selections of the same candidates list the same outputs, with the same
totals. -/
theorem Selection.ofCandidates_same {first second : List Candidate}
    (same : first.map Candidate.unplaced = second.map Candidate.unplaced) {target : Nat}
    {algorithm : Algorithm} (finished : ¬ (ofCandidates first target algorithm).Aborts)
    (drawn : Nat) :
    SameAnswer (ofCandidates first target algorithm, drawn)
      (ofCandidates second target algorithm, drawn) := by
  have amounts_eq : Candidate.amounts first = Candidate.amounts second := by
    have total := congrArg Candidate.amounts same
    simpa [Candidate.unplaced] using total
  have fees_eq : Candidate.fees first = Candidate.fees second := by
    have total := congrArg Candidate.fees same
    simpa [Candidate.unplaced] using total
  have utxos_eq : first.map Candidate.utxo = second.map Candidate.utxo := by
    have utxos := congrArg (List.map Candidate.utxo) same
    simpa only [Candidate.unplaced, Candidate.map_utxo_renumber] using utxos
  have selected : ((offeredOrder first).map Candidate.utxo).Perm
      ((offeredOrder second).map Candidate.utxo) := by
    refine ((offeredOrder_perm first).map _).trans ?_
    rw [utxos_eq]
    exact ((offeredOrder_perm second).map _).symm
  have excess_eq : Candidate.amounts first - target = Candidate.amounts second - target := by
    rw [amounts_eq]
  obtain ⟨_, first_eq⟩ := exists_ok (not_refuses_ofCandidates first target algorithm) finished
  obtain ⟨amountsFit, feesFit, rfl⟩ := ofCandidates_eq_ok_iff.mp first_eq
  have second_eq : ofCandidates second target algorithm = .ok (exact second target algorithm) :=
    ofCandidates_eq_ok_iff.mpr ⟨amounts_eq ▸ amountsFit, fees_eq ▸ feesFit, rfl⟩
  rw [first_eq, second_eq]
  exact @SameAnswer.selects (exact first target algorithm) (exact second target algorithm)
    selected amounts_eq excess_eq fees_eq rfl drawn

/-! ## The same answer of a strategy -/

section Strategy

variable {first second : List Candidate}

theorem Knapsack.select_same
    (distinct : (first.map fun candidate => candidate.utxo.outpoint).Nodup)
    (same : Candidate.SameUpToOrder first second) (source : RandomSource)
    (minimumChange target : Nat) :
    List.map Candidate.unplaced <$> select source minimumChange first target =
      List.map Candidate.unplaced <$> select source minimumChange second target := by
  have unplacedDistinct :
      ((first.map Candidate.unplaced).map fun candidate => candidate.utxo.outpoint).Nodup := by
    simpa [Candidate.unplaced, Function.comp_def] using distinct
  simp only [Candidate.unplaced, ← select_renumber]
  exact select_perm unplacedDistinct same source minimumChange target

theorem BranchAndBound.select_same (economic : Candidate.Economic first)
    (distinct : (first.map fun candidate => candidate.utxo.outpoint).Nodup)
    (same : Candidate.SameUpToOrder first second) (costOfChange target : Nat) :
    (select costOfChange first target).map (List.map Candidate.unplaced) =
      (select costOfChange second target).map (List.map Candidate.unplaced) := by
  have unplacedDistinct :
      ((first.map Candidate.unplaced).map fun candidate => candidate.utxo.outpoint).Nodup := by
    simpa [Candidate.unplaced, Function.comp_def] using distinct
  have positive : Candidate.Positive (first.map Candidate.unplaced) := by
    simpa [Candidate.Positive, Candidate.unplaced] using economic.positive
  have fits : Candidate.worth (first.map Candidate.unplaced) ≤ greatestSigned := by
    simpa [Candidate.unplaced] using economic.worth_fits
  simp only [Candidate.unplaced, ← select_renumber]
  exact select_perm positive fits unplacedDistinct same costOfChange target

/-- A strategy gives the same answer for the same candidates, unless it aborts. -/
theorem Strategy.select_same (economic : Candidate.Economic first)
    (distinct : (first.map fun candidate => candidate.utxo.outpoint).Nodup)
    (same : Candidate.SameUpToOrder first second) {source : RandomSource} {target : Nat}
    (strategy : Strategy) {drawn : Nat}
    (finished : ¬ Aborts ((strategy.select source first target).run drawn).1) :
    SameAnswer ((strategy.select source first target).run drawn)
      ((strategy.select source second target).run drawn) := by
  induction strategy with
  | knapsack minimumChange =>
      rw [select] at finished ⊢
      rcases Draw.run_cases_of_map_eq
          (Knapsack.select_same distinct same source minimumChange target) drawn with
        ⟨chosen, another, later, firstRun, secondRun, chosenSame⟩ |
          ⟨failure, later, firstRun, secondRun⟩
      · rw [Draw.run_bind_of_ok firstRun, Draw.run_ofOutcome] at finished ⊢
        rw [select, Draw.run_bind_of_ok secondRun, Draw.run_ofOutcome]
        exact Selection.ofCandidates_same chosenSame finished later
      · rw [Draw.run_bind_of_error firstRun] at finished ⊢
        rw [select, Draw.run_bind_of_error secondRun]
        exact .refl finished later
  | branchAndBound costOfChange fallback ih =>
      have searchSame := BranchAndBound.select_same economic distinct same costOfChange target
      rw [select] at finished ⊢
      rw [select]
      cases firstSearch : BranchAndBound.select costOfChange first target with
      | ok chosen =>
          cases secondSearch : BranchAndBound.select costOfChange second target with
          | ok another =>
              simp only [firstSearch, secondSearch, Except.map, Except.ok.injEq] at searchSame
              simp only [firstSearch, Draw.run_ofOutcome] at finished
              exact Selection.ofCandidates_same searchSame finished drawn
          | error failure => simp [firstSearch, secondSearch, Except.map] at searchSame
      | error failure =>
          cases secondSearch : BranchAndBound.select costOfChange second target with
          | ok another => simp [firstSearch, secondSearch, Except.map] at searchSame
          | error other =>
              simp only [firstSearch, secondSearch, Except.map, Except.error.injEq] at searchSame
              subst searchSame
              simp only [firstSearch] at finished
              cases failure with
              | error error => exact ih finished
              | abort cause => exact (finished (aborts_abort cause)).elim

end Strategy

/-! ## The same answer to a request -/

section Request

variable {target : Nat} {pool other accepted : List Utxo} {filter : Filter} {options : Options}
  {fees : Fees}

/-- Forgetting positions, the candidates are the outputs at their prices. -/
theorem Fees.map_unplaced_candidates (fees : Fees) (position : Nat) (utxos : List Utxo) :
    (fees.candidates position utxos).map Candidate.unplaced =
      (utxos.map fun utxo => fees.candidate utxo 0).filter
        fun candidate => 0 < candidate.effectiveValue := by
  have unnumbered : ((utxos.zipIdx position).map fun entry => fees.candidate entry.1 entry.2).map
      Candidate.unplaced = utxos.map fun utxo => fees.candidate utxo 0 := by
    rw [List.map_map]
    have firsts := congrArg (List.map fun utxo => fees.candidate utxo 0)
      (List.zipIdx_map_fst position utxos)
    rwa [List.map_map] at firsts
  rw [← unnumbered, List.filter_map]
  rfl

/-- Candidates have the outpoints of their outputs. -/
theorem Fees.candidates_distinct (distinct : (accepted.map Utxo.outpoint).Nodup) :
    ((fees.candidates 0 accepted).map fun candidate => candidate.utxo.outpoint).Nodup := by
  have outpoints := (@candidates_sublist fees accepted 0).map Utxo.outpoint
  rw [List.map_map] at outpoints
  exact distinct.sublist outpoints

theorem Fees.candidates_same (perm : accepted.Perm other) :
    Candidate.SameUpToOrder (fees.candidates 0 accepted) (fees.candidates 0 other) := by
  rw [Candidate.SameUpToOrder, map_unplaced_candidates, map_unplaced_candidates]
  exact (perm.map _).filter _

theorem Ready.perm (ready : Ready target accepted fees options) (perm : accepted.Perm other) :
    Ready target other fees options where
  nonempty empty := ready.nonempty (perm.trans (.of_eq empty)).eq_nil
  fits := totalAmount_perm perm ▸ ready.fits
  product := ready.product
  targetFits := ready.targetFits
  prices utxo member := ready.prices utxo (perm.mem_iff.mpr member)
  pricesChange := ready.pricesChange

/-- A refusal of preparation does not depend on the order. -/
theorem Prepared.perm_error {failure : Failure} (perm : accepted.Perm other)
    (prepared : Prepared target accepted fees options (.error failure)) :
    Prepared target other fees options (.error failure) := by
  generalize outcome_eq : (.error failure : Outcome Task) = outcome at prepared ⊢
  cases prepared with
  | nothingAccepted empty => exact .nothingAccepted (empty ▸ perm).nil_eq.symm
  | totalTooLarge large => exact .totalTooLarge (totalAmount_perm perm ▸ large)
  | targetTooLarge nonempty fits product large =>
      rw [totalAmount_perm perm] at fits ⊢
      refine .targetTooLarge (fun empty => nonempty ?_) fits product large
      exact (perm.trans (.of_eq empty)).eq_nil
  | ready ready => cases outcome_eq

theorem Filter.accepted_perm (perm : pool.Perm other)
    (accepts : filter.accepted pool = .ok (pool.filter filter.admits)) :
    filter.accepted other = .ok (other.filter filter.admits) := by
  have counts := (Filter.accepted_eq_ok_iff.mp accepts).1
  exact Filter.accepted_eq_ok_iff.mpr
    ⟨fun utxo member => counts utxo (perm.mem_iff.mpr member), rfl⟩

/-- A request gets the same answer from the same outputs in another order, if
their outpoints are distinct and it does not abort. -/
theorem select_order_independent (source : RandomSource) (target : Nat)
    (distinct : (pool.map Utxo.outpoint).Nodup) (perm : pool.Perm other) {drawn : Nat}
    (finished : ¬ Aborts ((select source target pool filter options).run drawn).1) :
    SameAnswer ((select source target pool filter options).run drawn)
      ((select source target other filter options).run drawn) := by
  cases validated : options.validate with
  | error failure =>
      rw [select_run_of_invalid validated] at finished ⊢
      rw [select_run_of_invalid validated]
      exact .refl finished drawn
  | ok =>
      have accepts := exists_accepted validated finished
      have otherAccepts := Filter.accepted_perm perm accepts
      rcases Nat.eq_zero_or_pos target with rfl | positive
      · rw [select_run_of_zero validated accepts, select_run_of_zero validated otherAccepts]
        exact .refl (not_aborts_ok _) drawn
      have acceptedPerm := perm.filter filter.admits
      cases preparation : prepare target (pool.filter filter.admits) filter options with
      | error failure =>
          rw [select_run_of_error validated accepts positive preparation] at finished ⊢
          have taskFinished := finished
          rw [aborts_error_iff, ← aborts_error_iff (α := Task)] at taskFinished
          have prepared := prepare_eq_iff.mp ⟨preparation, taskFinished⟩
          have otherPreparation := (prepare_eq_iff.mpr (prepared.perm_error acceptedPerm)).1
          rw [select_run_of_error validated otherAccepts positive otherPreparation]
          exact .refl finished drawn
      | ok task =>
          rw [select_run_of_ok validated accepts positive preparation, aborts_map_iff] at finished
          rw [select_run_of_ok validated accepts positive preparation]
          cases prepare_eq_iff.mp ⟨preparation, not_aborts_ok task⟩ with
          | ready ready =>
              have otherPreparation := (prepare_eq_iff.mpr (.ready (ready.perm acceptedPerm))).1
              rw [select_run_of_ok validated otherAccepts positive otherPreparation]
              refine SameAnswer.paying ?_ target
              exact Strategy.select_same ready.economic
                (Fees.candidates_distinct (distinct.sublist (List.filter_sublist.map _)))
                (Fees.candidates_same acceptedPerm) _ finished

theorem select_order_independent_twoOutputs :
    SameAnswer ((select (fun _ => 0) 500 twoOutputs {} relayOptions).run 0)
      ((select (fun _ => 0) 500 twoOutputs.reverse {} relayOptions).run 0) := by
  have finished : ¬ Aborts ((select (fun _ => 0) 500 twoOutputs {} relayOptions).run 0).1 := by
    rw [select_twoOutputs]
    exact not_aborts_ok _
  have distinct : (twoOutputs.map Utxo.outpoint).Nodup := by decide +kernel
  exact select_order_independent (fun _ => 0) 500 distinct (List.reverse_perm _).symm finished

end Request

end CoinSelection
