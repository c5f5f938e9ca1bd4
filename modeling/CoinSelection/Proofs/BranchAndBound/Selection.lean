import CoinSelection.Proofs.BranchAndBound.Visits

/-!
# What branch and bound selects

The best selection of a search lies in the window at every place, so the
selection that is reported needs no change.  A search for candidates at their
exact prices never fails, provided that their long-term fees fit together.
-/

namespace CoinSelection.BranchAndBound

open Candidate Checked Outcome

/-! ## Selections in the window -/

/-- A part of the candidates that is worth something in the window. -/
structure Goal.Admits (goal : Goal) (candidates part : List Candidate) : Prop where
  sublist : part.Sublist candidates
  target_le : goal.target ≤ worth part
  le_limit : worth part ≤ goal.limit

/-- The best selection, if there is one, is in the window. -/
def Best.InWindow (goal : Goal) (candidates : List Candidate) (best : Best) : Prop :=
  ∀ part, best.selection? = some part → goal.Admits candidates part

section Window

variable {goal : Goal} {candidates : List Candidate} {best : Best} {place : Place}

theorem Best.inWindow_empty : Best.InWindow goal candidates {} := by
  simp [Best.InWindow, Best.selection?]

theorem Best.InWindow.record {decisions : List Decision} (inWindow : best.InWindow goal candidates)
    (admits : goal.Admits candidates (chosen decisions)) (waste : Int) :
    (best.record decisions waste).InWindow goal candidates := by
  unfold Best.record
  split
  · intro part found
    obtain rfl : chosen decisions = part := by simpa [Best.selection?] using found
    exact admits
  · exact inWindow

/-- A hit is a selection in the window, at its exact waste. -/
theorem admits_of_hit {leastWaste waste : Int} (hit : goal.verdict leastWaste place = .hit waste) :
    goal.Admits place.candidates (chosen place.decided) ∧
      waste = totalWaste (chosen place.decided) + (worth (chosen place.decided) - goal.target) := by
  unfold Goal.verdict at hit
  dsimp only at hit
  split at hit
  · cases hit
  rename_i alive
  split at hit
  · rename_i reached
    cases hit
    exact ⟨⟨place.chosen_sublist, reached, not_lt.mp fun above => alive (.inr (.inl above))⟩, rfl⟩
  · cases hit

/-- Visiting a place keeps the best selection in the window. -/
theorem visit_inWindow (inWindow : best.InWindow goal place.candidates) :
    (goal.visit best place).1.InWindow goal place.candidates := by
  unfold Goal.visit
  cases judged : goal.verdict best.waste place with
  | below => exact inWindow
  | dead => exact inWindow
  | hit waste => exact inWindow.record (admits_of_hit judged).1 waste

/-- A whole search keeps the best selection in the window. -/
theorem explore_inWindow (tries : Nat) (inWindow : best.InWindow goal place.candidates) :
    (goal.explore tries best place).best.InWindow goal place.candidates := by
  refine explore_keeps (fun visited member inWindow => ?_) inWindow
  have all := visits_candidates tries visited member
  rw [← all] at inWindow ⊢
  exact visit_inWindow inWindow

end Window

/-! ## Starting a search -/

section Search

variable {candidates : List Candidate} {target : Nat}

theorem requireWorth_eq_ok_iff {candidate : Candidate} :
    requireWorth candidate = .ok () ↔ 0 < candidate.effectiveValue := by
  unfold requireWorth abort
  split <;> simp_all

theorem forM_requireWorth_eq_ok_iff :
    candidates.forM requireWorth = .ok () ↔ Positive candidates := by
  rw [Positive]
  induction candidates with
  | nil => simp [pure, Except.pure]
  | cons candidate rest ih =>
      rw [List.forM_eq_forM] at ih ⊢
      rw [List.forM_cons, bind_eq_ok_iff, List.forall_mem_cons, ← ih, ← requireWorth_eq_ok_iff]
      constructor
      · rintro ⟨⟨⟩, first, others⟩
        exact ⟨first, others⟩
      · rintro ⟨first, others⟩
        exact ⟨(), first, others⟩

private theorem sumSigned_worth (positive : Positive candidates)
    (fits : worth candidates ≤ greatestSigned) :
    sumSigned (candidates.map effectiveValue) = .ok (worth candidates) :=
  sumSigned_of_nonneg (by simpa using fun candidate member => (positive candidate member).le) fits

/-- Only candidates that are worth spending, and whose worth fits, are searched. -/
theorem positive_of_search {pruning : Pruning} {tries costOfChange : Nat} {report : Report}
    (searched : search pruning tries costOfChange candidates target = .ok report) :
    Positive candidates ∧ worth candidates ≤ greatestSigned := by
  rw [search, bind_eq_ok_iff] at searched
  obtain ⟨⟨⟩, worthwhile, searched⟩ := searched
  obtain ⟨available, summed, _⟩ := bind_eq_ok_iff.mp searched
  obtain ⟨fits, rfl⟩ := sumSigned_eq_sum summed
  exact ⟨forM_requireWorth_eq_ok_iff.mp worthwhile, fits.2⟩

/-- A target that the candidates do not reach together is refused at once. -/
theorem search_of_lt (positive : Positive candidates) (fits : worth candidates ≤ greatestSigned)
    (short : worth candidates < target) (pruning : Pruning) (tries costOfChange : Nat) :
    search pruning tries costOfChange candidates target =
      refuse (insufficient candidates target) := by
  have unreached : (toSigned? target).filter (fun signedTarget => signedTarget ≤ worth candidates) =
      none := by
    rw [Option.filter_eq_none_iff]
    intro signedTarget found
    obtain ⟨_, rfl⟩ := toSigned?_eq_some_iff.mp found
    simpa using short
  rw [search, forM_requireWorth_eq_ok_iff.mpr positive, ok_bind, sumSigned_worth positive fits,
    ok_bind, unreached]

/-- A target that they do reach is searched for from the start. -/
theorem search_of_le (positive : Positive candidates) (fits : worth candidates ≤ greatestSigned)
    (enough : (target : Int) ≤ worth candidates) (pruning : Pruning) (tries costOfChange : Nat) :
    search pruning tries costOfChange candidates target = (do
      let first ← firstWaste (largestFirst candidates)
      (Goal.above pruning target costOfChange first).run tries {}
        (Place.start (largestFirst candidates)).node) := by
  have signed_eq : toSigned? target = some (target : Int) :=
    toSigned?_eq_some_iff.mpr ⟨enough.trans fits, rfl⟩
  have reached : (toSigned? target).filter (fun signedTarget => signedTarget ≤ worth candidates) =
      some (target : Int) := by
    simp [signed_eq, enough]
  rw [search, forM_requireWorth_eq_ok_iff.mpr positive, ok_bind, sumSigned_worth positive fits,
    ok_bind, reached]
  simp only [Place.node_start_largestFirst]

/-- A search that reports gives the report of the search over places. -/
theorem exists_explore {pruning : Pruning} {tries costOfChange : Nat} {report : Report}
    (positive : Positive candidates) (fits : worth candidates ≤ greatestSigned)
    (searched : search pruning tries costOfChange candidates target = .ok report) :
    (target : Int) ≤ worth candidates ∧
      ∃ first, firstWaste (largestFirst candidates) = .ok first ∧
        report = (Goal.above pruning target costOfChange first).explore tries {}
          (.start (largestFirst candidates)) := by
  rcases lt_or_ge (worth candidates) target with short | enough
  · rw [search_of_lt positive fits short] at searched
    cases searched
  · rw [search_of_le positive fits enough] at searched
    obtain ⟨first, first_eq, finished⟩ := bind_eq_ok_iff.mp searched
    exact ⟨enough, first, first_eq,
      run_yields tries {} (.start (largestFirst candidates)) _ finished⟩

/-- The window is no wider than the cost of change. -/
theorem Goal.above_limit_le (pruning : Pruning) (target costOfChange : Nat) (firstWaste : Int) :
    (Goal.above pruning target costOfChange firstWaste).limit ≤ target + costOfChange := by
  change saturatingAddSigned target (clampSigned costOfChange) ≤ _
  rw [saturatingAddSigned_clampSigned]
  exact min_le_left _ _

/-- Below the greatest word the window is no narrower either. -/
theorem Goal.le_above_limit (pruning : Pruning) {target costOfChange : Nat} (firstWaste : Int)
    {value : Int} (fits : value ≤ greatestSigned) (le : value ≤ target + costOfChange) :
    value ≤ (Goal.above pruning target costOfChange firstWaste).limit := by
  change value ≤ saturatingAddSigned target (clampSigned costOfChange)
  rw [saturatingAddSigned_clampSigned]
  exact le_min le fits

theorem Report.selection_eq_ok_iff {report : Report} {selected : List Candidate} :
    report.selection = .ok selected ↔ report.best.selection? = some selected := by
  unfold Report.selection refuse
  cases report.best.selection? <;> simp

/-- Branch and bound selects what its search reports. -/
theorem select_eq_ok_iff {costOfChange : Nat} {selected : List Candidate} :
    select costOfChange candidates target = .ok selected ↔
      ∃ report, search {} totalTries costOfChange candidates target = .ok report ∧
        report.best.selection? = some selected := by
  rw [select, bind_eq_ok_iff]
  simp only [Report.selection_eq_ok_iff]

/-- The selection of a search is in the window above its target. -/
theorem select_sound {costOfChange : Nat} {selected : List Candidate}
    (positive : Positive candidates) (fits : worth candidates ≤ greatestSigned)
    (finished : select costOfChange candidates target = .ok selected) :
    selected.Sublist (largestFirst candidates) ∧ (target : Int) ≤ worth selected ∧
      worth selected ≤ target + costOfChange := by
  obtain ⟨report, searched, found⟩ := select_eq_ok_iff.mp finished
  obtain ⟨_, first, _, rfl⟩ := exists_explore positive fits searched
  have admits := explore_inWindow totalTries Best.inWindow_empty _ found
  exact ⟨admits.sublist, admits.target_le, admits.le_limit.trans (Goal.above_limit_le ..)⟩

/-- The waste of the first candidate can be computed where every waste can. -/
theorem exists_firstWaste
    (computed : ∀ candidate ∈ candidates, ∃ waste, candidate.waste = .ok waste) :
    ∃ first, firstWaste candidates = .ok first := by
  cases candidates with
  | nil => exact ⟨0, rfl⟩
  | cons candidate rest => exact computed candidate List.mem_cons_self

/-- A search whose sums fit does not abort. -/
theorem search_not_aborts (fits : SumsFit candidates target) (pruning : Pruning)
    (tries costOfChange : Nat) :
    ¬ (search pruning tries costOfChange candidates target).Aborts := by
  have ordered := fits.perm (largestFirst_perm candidates)
  rcases lt_or_ge (worth candidates) target with short | enough
  · rw [search_of_lt fits.positive fits.worth short]
    exact not_aborts_error _
  · obtain ⟨first, first_eq⟩ :=
      exists_firstWaste fun _ member => ⟨_, ordered.waste_eq_ok member⟩
    have finished := @run_eq_ok (Goal.above pruning target costOfChange first)
      (Place.start (largestFirst candidates)) ordered (Int.natCast_nonneg target) tries {}
    rw [search_of_le fits.positive fits.worth enough, first_eq, ok_bind, finished]
    exact not_aborts_ok _

end Search

/-! ## Searching at exact prices -/

section Prices

variable {candidates : List Candidate}

/-- The total waste is what the fees exceed the long-term fees by. -/
theorem totalWaste_eq (feesFit : (fees candidates : Int) ≤ greatestSigned)
    (longTermFit : (longTermFees candidates : Int) ≤ greatestSigned) :
    totalWaste candidates = fees candidates - longTermFees candidates := by
  induction candidates with
  | nil => rfl
  | cons candidate rest ih =>
      rw [fees_cons] at feesFit ⊢
      rw [longTermFees_cons] at longTermFit ⊢
      rw [totalWaste_cons, ih (by omega) (by omega), exactWaste, reinterpret_of_le (by omega),
        reinterpret_of_le (by omega)]
      omega

/-- At exact prices the sums of a search fit where the long-term fees do. -/
theorem sumsFit_of_economic (economic : Economic candidates)
    (longTermFit : (longTermFees candidates : Int) ≤ greatestSigned) (target : Nat) :
    SumsFit candidates target := by
  have totals : ∀ part : List Candidate, part.Sublist candidates →
      totalWaste part = fees part - longTermFees part ∧
        (longTermFees part : Int) ≤ greatestSigned ∧ Economic part := by
    intro part sublist
    have partEconomic := economic.subperm sublist.subperm
    have partLongTerm := longTermFees_sublist sublist
    have balance := partEconomic.worth_add_fees
    have nonneg := partEconomic.positive.worth_nonneg
    have amountsFit := partEconomic.fits
    exact ⟨totalWaste_eq (by omega) (by omega), by omega, partEconomic⟩
  refine ⟨economic.positive, economic.worth_fits, fun part sublist => ?_,
    fun part sublist reached => ?_⟩
  all_goals
    obtain ⟨waste_eq, partLongTerm, partEconomic⟩ := totals part sublist
    have balance := partEconomic.worth_add_fees
    have nonneg := partEconomic.positive.worth_nonneg
    have amountsFit := partEconomic.fits
    rw [waste_eq, fitsSigned_iff]
    simp only [greatestSigned] at *
    omega

/-- A search at exact prices ends with a selection or a refusal. -/
theorem select_not_aborts (economic : Economic candidates)
    (longTermFit : (longTermFees candidates : Int) ≤ greatestSigned) (costOfChange target : Nat) :
    ¬ (select costOfChange candidates target).Aborts := by
  have fits := sumsFit_of_economic economic longTermFit target
  rw [select, aborts_bind_iff]
  rintro (aborts | ⟨report, _, aborts⟩)
  · exact search_not_aborts fits {} totalTries costOfChange aborts
  · unfold Report.selection at aborts
    split at aborts
    · exact not_aborts_ok _ aborts
    · exact not_aborts_error _ aborts

end Prices

end CoinSelection.BranchAndBound
