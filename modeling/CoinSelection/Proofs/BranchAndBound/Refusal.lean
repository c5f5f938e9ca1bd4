import CoinSelection.Proofs.BranchAndBound.Completeness

/-!
# Refusals of branch and bound

Steps of a search may fail, but they never refuse.  So branch and bound refuses
for one of three reasons: the candidates do not reach the target together, or
the search has found nothing, be it exhausted or not.  An exhausted search that
found nothing missed nothing, whatever the fees of the candidates are.
-/

namespace CoinSelection.BranchAndBound

open Candidate Checked Outcome

/-! ## Steps do not refuse -/

theorem not_refuses_waste (candidate : Candidate) : ¬ Refuses candidate.waste := by
  simp [Candidate.waste, subSigned]

theorem not_refuses_firstWaste (candidates : List Candidate) :
    ¬ Refuses (firstWaste candidates) := by
  cases candidates with
  | nil => exact not_refuses_ok 0
  | cons candidate rest => exact not_refuses_waste candidate

theorem not_refuses_advance (skipEqual : Bool) (node : Node) :
    ¬ Refuses (node.advance skipEqual) := by
  unfold Node.advance
  split
  · exact not_refuses_abort _
  · simp only [refuses_bind_iff, subSigned, not_refuses_signed, false_or, not_exists, not_and]
    intro available _
    split <;>
      simp [refuses_bind_iff, addSigned, not_refuses_waste, pure, Except.pure]

theorem not_refuses_retreatFrom (value waste : Int) (decided : List Decision)
    (undecided : List Candidate) (available : Int) :
    ¬ Refuses (Node.retreatFrom value waste decided undecided available) := by
  induction decided generalizing undecided available with
  | nil => exact not_refuses_ok none
  | cons decision earlier ih =>
      obtain ⟨candidate, taken⟩ := decision
      cases taken <;>
        simp [Node.retreatFrom, refuses_bind_iff, addSigned, subSigned, not_refuses_waste, ih, pure,
          Except.pure]

theorem not_refuses_judge (goal : Goal) (leastWaste : Int) (node : Node) :
    ¬ Refuses (goal.judge leastWaste node) := by
  unfold Goal.judge
  simp only [refuses_bind_iff, addSigned, not_refuses_signed, false_or, not_exists, not_and]
  intro reachable _
  split
  · simp [pure, Except.pure]
  split <;> simp [refuses_bind_iff, subSigned, pure, Except.pure]

theorem not_refuses_step (goal : Goal) (best : Best) (node : Node) :
    ¬ Refuses (goal.step best node) := by
  simp only [Goal.step, refuses_bind_iff, not_refuses_judge, false_or, not_exists, not_and]
  intro verdict _
  cases verdict <;>
    simp [refuses_bind_iff, not_refuses_advance, Node.retreat, not_refuses_retreatFrom, pure,
      Except.pure]

/-- A search never refuses. -/
theorem not_refuses_run (goal : Goal) (tries : Nat) (best : Best) (node : Node) :
    ¬ Refuses (goal.run tries best node) := by
  induction tries generalizing best node with
  | zero => exact not_refuses_ok _
  | succ tries ih =>
      rw [Goal.run_succ]
      simp only [refuses_bind_iff, not_refuses_step, false_or, not_exists, not_and]
      rintro ⟨better, next⟩ _
      cases next with
      | none => exact not_refuses_ok _
      | some next => exact ih better next

/-! ## Reasons to refuse -/

section Refusal

variable {candidates part : List Candidate} {target costOfChange : Nat}

/-- A report without a selection says why there is none. -/
theorem Report.selection_eq_refuse_iff {report : Report} {error : Error} :
    report.selection = refuse error ↔
      report.best.selection? = none ∧
        error = if report.exhausted then .noExactMatch else .triesExceeded := by
  unfold Report.selection
  cases report.best.selection? with
  | some selection => simp [refuse]
  | none =>
      simp only [refuse, Except.error.injEq, Failure.error.injEq, true_and]
      exact eq_comm

/-- Branch and bound refuses a target that all candidates together do not reach,
and otherwise only if its search has found nothing. -/
theorem select_eq_refuse_iff (positive : Positive candidates)
    (fits : worth candidates ≤ greatestSigned) {error : Error} :
    select costOfChange candidates target = refuse error ↔
      worth candidates < target ∧ error = insufficient candidates target ∨
        ∃ report, search {} totalTries costOfChange candidates target = .ok report ∧
          report.best.selection? = none ∧
            error = if report.exhausted then .noExactMatch else .triesExceeded := by
  rw [select]
  rcases lt_or_ge (worth candidates) target with short | enough
  · rw [search_of_lt positive fits short]
    simp only [refuse, bind, Except.bind, Except.error.injEq, Failure.error.injEq, short, true_and,
      reduceCtorEq, false_and, exists_false, or_false]
    exact eq_comm
  · have accepted : ¬ Refuses (search {} totalTries costOfChange candidates target) := by
      rw [search_of_le positive fits enough]
      simp [refuses_bind_iff, not_refuses_firstWaste, not_refuses_run]
    cases searched : search {} totalTries costOfChange candidates target with
    | ok report =>
        rw [ok_bind, Report.selection_eq_refuse_iff]
        simp [not_lt.mpr enough]
    | error failure =>
        rw [searched] at accepted
        have other : ∀ error, failure ≠ .error error :=
          fun error same => accepted ⟨error, congrArg Except.error same⟩
        simp [refuse, bind, Except.bind, not_lt.mpr enough, other error]

/-- An exhausted search that reports has found a selection if a part of the
candidates is in the window. -/
theorem search_finds {pruning : Pruning} {tries : Nat} {report : Report}
    (searched : search pruning tries costOfChange candidates target = .ok report)
    (exhausted : report.exhausted = true) (subperm : part.Subperm candidates)
    (target_le : (target : Int) ≤ worth part) (le_limit : worth part ≤ target + costOfChange) :
    ∃ selected, report.best.selection? = some selected := by
  obtain ⟨positive, fits⟩ := positive_of_search searched
  have enough : (target : Int) ≤ worth candidates := target_le.trans (positive.worth_le subperm)
  rw [search_of_le positive fits enough] at searched
  obtain ⟨first, _, ran⟩ := bind_eq_ok_iff.mp searched
  obtain ⟨rfl, _⟩ := run_eq_ok_iff.mp ran
  obtain ⟨_, _, admits⟩ := exists_admits positive fits subperm target_le le_limit pruning first
  have orderedPositive : Positive (largestFirst candidates) :=
    positive.subset (largestFirst_perm candidates).subset
  exact explore_finds_of_wasteFits orderedPositive (wasteFits_of_run ran) exhausted admits

/-- If branch and bound refuses candidates for want of an exact match, then no
part of them lies in the window, whatever their fees are.  It refuses them as
insufficient exactly when they do not reach the target together. -/
theorem select_refusal_exact (positive : Positive candidates)
    (fits : worth candidates ≤ greatestSigned) (costOfChange target : Nat) :
    (select costOfChange candidates target = refuse .noExactMatch →
      ∀ part : List Candidate, part.Subperm candidates →
        ¬ ((target : Int) ≤ worth part ∧
          worth part ≤ min ((target : Int) + costOfChange) greatestSigned)) ∧
    ((∃ needed available,
        select costOfChange candidates target = refuse (.insufficientFunds needed available)) ↔
      worth candidates < target) := by
  constructor
  · rintro refused part subperm ⟨target_le, le_limit⟩
    rcases (select_eq_refuse_iff positive fits).mp refused with
      ⟨_, different⟩ | ⟨report, searched, nothing, reason⟩
    · cases different
    have exhausted : report.exhausted = true := by
      by_contra unfinished
      simp [unfinished] at reason
    obtain ⟨selected, found⟩ :=
      search_finds searched exhausted subperm target_le (le_limit.trans (min_le_left _ _))
    rw [nothing] at found
    cases found
  · constructor
    · rintro ⟨needed, available, refused⟩
      rcases (select_eq_refuse_iff positive fits).mp refused with
        ⟨short, _⟩ | ⟨report, _, _, reason⟩
      · exact short
      · split at reason <;> cases reason
    · intro short
      exact ⟨_, _, (select_eq_refuse_iff positive fits).mpr (.inl ⟨short, rfl⟩)⟩

/-- Three candidates of one value, the second of which costs more than the
others, and a smaller one. -/
def tiedCandidates : List Candidate :=
  [(300, 1), (300, 2), (300, 1), (100, 1)].mapIdx fun index (value, fee) =>
    { utxo := { outpoint := ⟨⟨Vector.replicate 32 0⟩, index.toUInt32⟩, amount := value + fee }
      fee := fee.toNat
      longTermFee := 0
      effectiveValue := value.toNat }

theorem select_refusal_exact_tiedCandidates :
    select 100 tiedCandidates 450 = refuse .noExactMatch ∧
      (∀ part : List Candidate, part.Subperm tiedCandidates →
        ¬ (450 ≤ worth part ∧ worth part ≤ min (450 + 100) greatestSigned)) ∧
      ∃ needed available,
        select 100 tiedCandidates 1001 = refuse (.insufficientFunds needed available) := by
  have ordered : largestFirst tiedCandidates = tiedCandidates :=
    largestFirst_of_sorted (by decide +kernel)
  have refused : select 100 tiedCandidates 450 = refuse .noExactMatch := by
    rw [select, search, ordered]
    decide +kernel
  have positive : Positive tiedCandidates := by
    unfold Positive
    decide +kernel
  have fits : worth tiedCandidates ≤ greatestSigned := by decide +kernel
  exact ⟨refused, (select_refusal_exact positive fits 100 450).1 refused,
    (select_refusal_exact positive fits 100 1001).2.mpr (by decide +kernel)⟩

end Refusal

end CoinSelection.BranchAndBound
