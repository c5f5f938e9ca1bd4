import CoinSelection.Proofs.BranchAndBound.Selection
import CoinSelection.Proofs.Knapsack.Selection

/-!
# What a strategy answers

At exact prices the totals of a selection are exact.  Every strategy ends with
the knapsack, so it answers with a selection that reaches the target, or with a
refusal because all candidates together do not.  A selection found by branch and
bound exceeds the target by no more than the cost of change, and one found by the
knapsack meets the target or leaves the minimum change where that can be had.
-/

namespace CoinSelection

open Candidate Checked Outcome

/-! ## Totals of a selection -/

namespace Selection

/-- The selection of candidates for a target, with exact totals. -/
def exact (chosen : List Candidate) (target : Nat) (algorithm : Algorithm) : Selection where
  selected := (offeredOrder chosen).map Candidate.utxo
  selectedValue := amounts chosen
  excessValue := amounts chosen - target
  inputFees := fees chosen
  algorithm

/-- There is a selection of candidates where their totals are words, and an
overflow where one of them is not. -/
theorem ofCandidates_eq (chosen : List Candidate) (target : Nat) (algorithm : Algorithm) :
    ofCandidates chosen target algorithm =
      if amounts chosen < wordBound ∧ fees chosen < wordBound then
        .ok (exact chosen target algorithm)
      else abort (.overflow .add) := by
  have amounts_eq : ((offeredOrder chosen).map Candidate.amount).sum = amounts chosen :=
    amounts_perm (offeredOrder_perm chosen)
  have fees_eq : ((offeredOrder chosen).map Candidate.fee).sum = fees chosen :=
    fees_perm (offeredOrder_perm chosen)
  rw [ofCandidates, sum_eq_below, sum_eq_below, amounts_eq, fees_eq]
  by_cases amountsFit : amounts chosen < wordBound
  · rw [below_eq_ok_iff.mpr ⟨amountsFit, rfl⟩]
    by_cases feesFit : fees chosen < wordBound
    · rw [below_eq_ok_iff.mpr ⟨feesFit, rfl⟩, if_pos ⟨amountsFit, feesFit⟩]
      rfl
    · rw [below_of_le (Nat.le_of_not_lt feesFit), if_neg fun fits => feesFit fits.2]
      rfl
  · rw [below_of_le (Nat.le_of_not_lt amountsFit), if_neg fun fits => amountsFit fits.1]
    rfl

theorem ofCandidates_eq_ok_iff {chosen : List Candidate} {target : Nat} {algorithm : Algorithm}
    {selection : Selection} :
    ofCandidates chosen target algorithm = .ok selection ↔
      amounts chosen < wordBound ∧ fees chosen < wordBound ∧
        selection = exact chosen target algorithm := by
  rw [ofCandidates_eq]
  split <;> simp_all [abort, eq_comm]

theorem not_refuses_ofCandidates (chosen : List Candidate) (target : Nat) (algorithm : Algorithm) :
    ¬ Refuses (ofCandidates chosen target algorithm) := by
  rw [ofCandidates_eq]
  split
  · exact not_refuses_ok _
  · exact not_refuses_abort _

/-- At exact prices the totals are words. -/
theorem ofCandidates_eq_ok {chosen : List Candidate} (economic : Economic chosen) (target : Nat)
    (algorithm : Algorithm) :
    ofCandidates chosen target algorithm = .ok (exact chosen target algorithm) := by
  have amounts_lt : amounts chosen < wordBound := by
    have fits := economic.fits
    simp only [greatestSigned, wordBound] at *
    omega
  exact ofCandidates_eq_ok_iff.mpr
    ⟨amounts_lt, economic.fees_le_amounts.trans_lt amounts_lt, rfl⟩

end Selection

/-! ## Answers of a strategy -/

namespace Strategy

/-- The costs of change that a strategy searches with. -/
def costs : Strategy → List Nat
  | .knapsack _ => []
  | .branchAndBound costOfChange fallback => costOfChange :: fallback.costs

/-- All that a strategy can answer, unless it aborts. -/
inductive Answers (strategy : Strategy) (candidates : List Candidate) (target : Nat) :
    Outcome Selection → Prop
  | selects {chosen : List Candidate} {algorithm : Algorithm}
      (sublist : chosen.Sublist (largestFirst candidates))
      (reaches : (target : Int) ≤ worth chosen)
      (noChange : algorithm = .branchAndBound →
        ∃ costOfChange ∈ strategy.costs, worth chosen ≤ target + costOfChange) :
      Answers strategy candidates target (.ok (.exact chosen target algorithm))
  | refuses (short : worth candidates < target) :
      Answers strategy candidates target (refuse (insufficient candidates target))

variable {source : RandomSource} {candidates : List Candidate} {target : Nat}

theorem Answers.not_aborts {strategy : Strategy} {outcome : Outcome Selection}
    (answers : strategy.Answers candidates target outcome) : ¬ outcome.Aborts := by
  cases answers with
  | selects => exact not_aborts_ok _
  | refuses => exact not_aborts_error _

/-- The answers of a fallback are answers of the strategy. -/
theorem Answers.of_fallback {costOfChange : Nat} {fallback : Strategy} {outcome : Outcome Selection}
    (answers : fallback.Answers candidates target outcome) :
    (Strategy.branchAndBound costOfChange fallback).Answers candidates target outcome := by
  cases answers with
  | selects sublist reaches noChange =>
      refine .selects sublist reaches fun algorithm_eq => ?_
      obtain ⟨cost, member, within⟩ := noChange algorithm_eq
      exact ⟨cost, List.mem_cons_of_mem _ member, within⟩
  | refuses short => exact .refuses short

/-- Some of the candidates, in the order of the search, are economic too. -/
private theorem economic_of_sublist {chosen : List Candidate} (economic : Economic candidates)
    (sublist : chosen.Sublist (largestFirst candidates)) : Economic chosen :=
  economic.subperm (sublist.subperm.trans (largestFirst_perm candidates).subperm)

/-- The knapsack always answers. -/
theorem select_knapsack_answers (economic : Economic candidates) (minimumChange drawn : Nat) :
    (Strategy.knapsack minimumChange).Answers candidates target
      (((Strategy.knapsack minimumChange).select source candidates target).run drawn).1 := by
  rcases Knapsack.select_run economic.positive economic.worth_fits minimumChange drawn with
    ⟨chosen, later, run_eq, sublist, band⟩ | ⟨short, run_eq⟩
  · rw [select, Draw.run_bind_of_ok run_eq,
      Selection.ofCandidates_eq_ok (economic_of_sublist economic sublist)]
    exact .selects sublist band.target_le (by simp)
  · rw [select, Draw.run_bind_of_error run_eq]
    exact .refuses short

/-- Whatever the knapsack selects, and whatever is drawn, the selection reaches
the target.  It leaves no change or at least the minimum if all candidates
together leave that much, and it is worth no more than any candidate that leaves
as much alone. -/
theorem select_knapsack_changeBand {minimumChange drawn later : Nat} {selection : Selection}
    (positive : Positive candidates) (fits : worth candidates ≤ greatestSigned)
    (finished : ((Strategy.knapsack minimumChange).select source candidates target).run drawn =
      (.ok selection, later)) :
    ∃ chosen : List Candidate, selection = .exact chosen target .knapsack ∧
      chosen.Sublist (largestFirst candidates) ∧
      Knapsack.ChangeBand target (min ((target : Int) + minimumChange) greatestSigned) candidates
        chosen := by
  rcases Knapsack.select_run positive fits minimumChange drawn with
    ⟨chosen, _, run_eq, sublist, band⟩ | ⟨_, run_eq⟩
  · rw [select, Draw.run_bind_of_ok run_eq, Draw.run_ofOutcome, Prod.mk.injEq] at finished
    exact ⟨chosen, (Selection.ofCandidates_eq_ok_iff.mp finished.1).2.2, sublist, band⟩
  · rw [select, Draw.run_bind_of_error run_eq] at finished
    cases finished

/-- Three candidates below a target of 40 with a change of 10, and a larger one. -/
def threeSmallOneLarge : List Candidate :=
  [.free 0 100, .free 1 30, .free 2 20, .free 3 10]

theorem select_knapsack_changeBand_threeSmallOneLarge :
    ((Strategy.knapsack 10).select (.cycle #[0, 0xFFFFFFFFFFFFFFFF]) threeSmallOneLarge 40).run 0 =
        (.ok (.exact [.free 1 30, .free 3 10] 40 .knapsack), 3) ∧
      ∃ chosen : List Candidate,
        Selection.exact [.free 1 30, .free 3 10] 40 .knapsack = .exact chosen 40 .knapsack ∧
        chosen.Sublist (largestFirst threeSmallOneLarge) ∧
        Knapsack.ChangeBand 40 50 threeSmallOneLarge chosen := by
  have ordered : largestFirst threeSmallOneLarge = threeSmallOneLarge :=
    largestFirst_of_sorted (by decide +kernel)
  have drawn : (Knapsack.select (.cycle #[0, 0xFFFFFFFFFFFFFFFF]) 10 threeSmallOneLarge 40).run 0 =
      (.ok [.free 1 30, .free 3 10], 3) := by
    rw [Knapsack.select, ordered]
    decide +kernel
  have totals : Selection.ofCandidates [.free 1 30, .free 3 10] 40 .knapsack =
      .ok (.exact [.free 1 30, .free 3 10] 40 .knapsack) :=
    Selection.ofCandidates_eq_ok_iff.mpr ⟨by decide, by decide, rfl⟩
  have finished : ((Strategy.knapsack 10).select (.cycle #[0, 0xFFFFFFFFFFFFFFFF])
      threeSmallOneLarge 40).run 0 = (.ok (.exact [.free 1 30, .free 3 10] 40 .knapsack), 3) := by
    rw [select, Draw.run_bind_of_ok drawn, totals, Draw.run_ofOutcome]
  have positive : Positive threeSmallOneLarge := by
    unfold Positive
    decide +kernel
  exact ⟨finished, select_knapsack_changeBand positive (by decide +kernel) finished⟩

/-- Branch and bound answers with the selection that it finds. -/
theorem select_branchAndBound_answers (economic : Economic candidates) {costOfChange : Nat}
    {fallback : Strategy} {chosen : List Candidate} (drawn : Nat)
    (searched : BranchAndBound.select costOfChange candidates target = .ok chosen) :
    (Strategy.branchAndBound costOfChange fallback).Answers candidates target
      (((Strategy.branchAndBound costOfChange fallback).select source candidates target).run
        drawn).1 := by
  obtain ⟨sublist, reaches, within⟩ :=
    BranchAndBound.select_sound economic.positive economic.worth_fits searched
  simp only [select, searched,
    Selection.ofCandidates_eq_ok (economic_of_sublist economic sublist)]
  exact .selects sublist reaches fun _ => ⟨costOfChange, List.mem_cons_self, within⟩

/-- A strategy gives one of its answers, unless it aborts. -/
theorem select_answers (economic : Economic candidates) (strategy : Strategy) (drawn : Nat)
    (finished : ¬ Aborts ((strategy.select source candidates target).run drawn).1) :
    strategy.Answers candidates target
      ((strategy.select source candidates target).run drawn).1 := by
  induction strategy with
  | knapsack minimumChange => exact select_knapsack_answers economic minimumChange drawn
  | branchAndBound costOfChange fallback ih =>
      cases searched : BranchAndBound.select costOfChange candidates target with
      | ok chosen => exact select_branchAndBound_answers economic drawn searched
      | error failure =>
          simp only [select, searched] at finished ⊢
          cases failure with
          | error error => exact (ih finished).of_fallback
          | abort cause => exact (finished (aborts_abort cause)).elim

/-- A strategy does not abort where the long-term fees of the candidates fit. -/
theorem select_not_aborts (economic : Economic candidates) (strategy : Strategy)
    (longTermFit : strategy.costs ≠ [] → (longTermFees candidates : Int) ≤ greatestSigned)
    (drawn : Nat) : ¬ Aborts ((strategy.select source candidates target).run drawn).1 := by
  induction strategy with
  | knapsack minimumChange =>
      exact (select_knapsack_answers economic minimumChange drawn).not_aborts
  | branchAndBound costOfChange fallback ih =>
      have longTerm := longTermFit (List.cons_ne_nil _ _)
      have finished := BranchAndBound.select_not_aborts economic longTerm costOfChange target
      cases searched : BranchAndBound.select costOfChange candidates target with
      | ok chosen => exact (select_branchAndBound_answers economic drawn searched).not_aborts
      | error failure =>
          simp only [select, searched]
          cases failure with
          | error error => exact ih fun _ => longTerm
          | abort cause => exact (finished ⟨cause, searched⟩).elim

end Strategy

end CoinSelection
