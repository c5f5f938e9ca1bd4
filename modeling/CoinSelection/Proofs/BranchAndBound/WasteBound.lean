import CoinSelection.Proofs.BranchAndBound.Optimality

/-!
# Giving up on waste

A search may give up on a place that wastes more than its best selection.  Where
no candidate has a negative waste, nothing below such a place wastes less, so a
search that goes on there comes back without a better selection, and from then
on does what the search that gave up does.  Giving up on waste therefore only
saves visits, and the report is the same.
-/

namespace CoinSelection.BranchAndBound

open Candidate Checked Outcome

/-- The same search without giving up on waste. -/
def Goal.withoutWasteBound (goal : Goal) : Goal :=
  { goal with boundsWaste := false }

/-! ## Coming to a place -/

/-- After at least one visit a search comes to another place, with the same best
selection and `fewer` visits left. -/
structure Goal.Leads (goal : Goal) (best : Best) (tries : Nat) (place : Place) (fewer : Nat)
    (next : Place) : Prop where
  fewer_lt : fewer < tries
  explore_eq : goal.explore tries best place = goal.explore fewer best next
  visits_eq : ∃ between,
    goal.visits tries best place = (best, place) :: between ++ goal.visits fewer best next

section Leads

variable {goal : Goal} {best : Best} {tries fewer last : Nat} {place next final : Place}

theorem Goal.Leads.of_visit (visited : goal.visit best place = (best, some next)) (tries : Nat) :
    goal.Leads best (tries + 1) place tries next where
  fewer_lt := Nat.lt_succ_self tries
  explore_eq := explore_of_next visited tries
  visits_eq := ⟨[], visits_of_next visited tries⟩

theorem Goal.Leads.trans (first : goal.Leads best tries place fewer next)
    (second : goal.Leads best fewer next last final) : goal.Leads best tries place last final where
  fewer_lt := second.fewer_lt.trans first.fewer_lt
  explore_eq := first.explore_eq.trans second.explore_eq
  visits_eq := by
    obtain ⟨before, first_eq⟩ := first.visits_eq
    obtain ⟨between, second_eq⟩ := second.visits_eq
    exact ⟨before ++ (best, next) :: between, by simp [first_eq, second_eq]⟩

end Leads

/-! ## Below a wasteful place -/

/-- The search leaves a place and all places below it without a better
selection. -/
def Goal.Leaves (goal : Goal) (best : Best) (tries : Nat) (place : Place) : Prop :=
  match place.retreat with
  | some next => ∃ fewer, goal.Leads best tries place fewer next
  | none => goal.explore tries best place = ⟨best, true⟩

section Below

variable {goal : Goal} {best : Best} {place next : Place} {tries fewer : Nat}

theorem Goal.Leaves.of_visit (visited : goal.visit best place = (best, place.retreat))
    (tries : Nat) :
    goal.Leaves best (tries + 1) place := by
  unfold Goal.Leaves
  cases retreated : place.retreat with
  | some next => exact ⟨tries, .of_visit (retreated ▸ visited) tries⟩
  | none => exact explore_of_last (retreated ▸ visited) tries

/-- A place is left once a place below it is, from which the search retreats to
the same place. -/
theorem Goal.Leads.leaves (leads : goal.Leads best tries place fewer next)
    (leaves : goal.Leaves best fewer next) (same : next.retreat = place.retreat) :
    goal.Leaves best tries place := by
  unfold Goal.Leaves at leaves ⊢
  rw [same] at leaves
  cases retreated : place.retreat with
  | some final =>
      rw [retreated] at leaves
      obtain ⟨last, others⟩ := leaves
      exact ⟨last, leads.trans others⟩
  | none =>
      rw [retreated] at leaves
      exact leads.explore_eq.trans leaves

/-- Where a search turns back from a wasteful place, it records nothing. -/
theorem visit_of_wasteful (wasteful : best.waste < totalWaste (chosen place.decided))
    (turns : goal.verdict best.waste place ≠ .below) :
    goal.visit best place = (best, place.retreat) := by
  unfold Goal.visit
  cases judged : goal.verdict best.waste place with
  | below => exact absurd judged turns
  | dead => rfl
  | hit waste =>
      obtain ⟨admits, rfl⟩ := admits_of_hit judged
      have reached := admits.target_le
      have worse : ¬ totalWaste (chosen place.decided) +
          (worth (chosen place.decided) - goal.target) ≤ best.waste := by
        omega
      simp only [Best.record, if_neg worse]

/-- An exhausted search leaves a wasteful place without a better selection, if no
undecided candidate has a negative waste: places below it are wasteful as well. -/
theorem leaves_of_wasteful {decided : List Decision} {undecided : List Candidate}
    (nonneg : ∀ candidate ∈ undecided, 0 ≤ candidate.exactWaste)
    (wasteful : best.waste < totalWaste (chosen decided))
    (exhausted : (goal.explore tries best ⟨decided, undecided⟩).exhausted = true) :
    goal.Leaves best tries ⟨decided, undecided⟩ := by
  induction undecided generalizing decided tries with
  | nil =>
      obtain ⟨tries, rfl⟩ := exists_succ_of_exhausted exhausted
      refine .of_visit (visit_of_wasteful wasteful fun below => ?_) tries
      obtain ⟨next, moved⟩ := exists_advance below
      cases moved
  | cons candidate rest ih =>
      obtain ⟨tries, rfl⟩ := exists_succ_of_exhausted exhausted
      rw [List.forall_mem_cons] at nonneg
      -- Once the candidate is left out, leaving the rest leaves this place.
      have omitted {fewer : Nat}
          (leads : goal.Leads best (tries + 1) ⟨decided, candidate :: rest⟩ fewer
            ⟨(candidate, false) :: decided, rest⟩) :
          goal.Leaves best (tries + 1) ⟨decided, candidate :: rest⟩ := by
        refine leads.leaves (ih nonneg.2 ?_ ?_) rfl
        · rwa [chosen_omitted]
        · rwa [leads.explore_eq] at exhausted
      by_cases below : goal.verdict best.waste ⟨decided, candidate :: rest⟩ = .below
      · have visited : goal.visit best ⟨decided, candidate :: rest⟩ =
            (best, some
              ⟨(candidate, !(goal.skipsEqual && Node.repeatsOmission decided candidate)) ::
                decided, rest⟩) := by
          rw [Goal.visit, below]
          rfl
        cases skips : goal.skipsEqual && Node.repeatsOmission decided candidate with
        | true =>
            rw [skips] at visited
            exact omitted (.of_visit visited tries)
        | false =>
            rw [skips] at visited
            -- Selected, it is left first, and the search comes back to leave it out.
            have into := Goal.Leads.of_visit visited tries
            have selected : goal.Leaves best tries ⟨(candidate, true) :: decided, rest⟩ := by
              refine ih nonneg.2 ?_ ?_
              · rw [chosen_selected, totalWaste_append, totalWaste_cons, totalWaste_nil]
                omega
              · rwa [into.explore_eq] at exhausted
            obtain ⟨fewer, turned⟩ := selected
            exact omitted (into.trans turned)
      · exact .of_visit (visit_of_wasteful wasteful below) tries

end Below

/-! ## The search that gives up -/

section Bound

variable {goal : Goal} {best : Best} {place : Place} {tries : Nat}

/-- A wasteful place is given up. -/
theorem visit_of_bounds
    (bounded : goal.boundsWaste = true ∧ best.waste < totalWaste (chosen place.decided)) :
    goal.visit best place = (best, place.retreat) := by
  have dead : goal.verdict best.waste place = .dead := if_pos (.inr (.inr bounded))
  rw [Goal.visit, dead]

/-- Other nodes are judged alike. -/
theorem judge_withoutWasteBound {node : Node} {leastWaste : Int}
    (tame : ¬ (goal.boundsWaste = true ∧ leastWaste < node.waste)) :
    goal.withoutWasteBound.judge leastWaste node = goal.judge leastWaste node := by
  simp [Goal.judge, Goal.withoutWasteBound, tame]

theorem verdict_withoutWasteBound {leastWaste : Int}
    (tame : ¬ (goal.boundsWaste = true ∧ leastWaste < totalWaste (chosen place.decided))) :
    goal.withoutWasteBound.verdict leastWaste place = goal.verdict leastWaste place := by
  have tame_node : ¬ (goal.boundsWaste = true ∧ leastWaste < place.node.waste) := tame
  refine if_congr ?_ rfl rfl
  simp [Goal.withoutWasteBound, tame_node]

theorem visit_withoutWasteBound
    (tame : ¬ (goal.boundsWaste = true ∧ best.waste < totalWaste (chosen place.decided))) :
    goal.withoutWasteBound.visit best place = goal.visit best place := by
  rw [Goal.visit, verdict_withoutWasteBound tame]
  rfl

/-- If the search that goes on is exhausted, the search that gives up reports the
same, and only leaves out some of its visits. -/
theorem explore_withoutWasteBound {candidates : List Candidate}
    (nonneg : goal.boundsWaste = true → ∀ candidate ∈ candidates, 0 ≤ candidate.exactWaste)
    (all : place.candidates = candidates)
    (exhausted : (goal.withoutWasteBound.explore tries best place).exhausted = true) :
    goal.explore tries best place = goal.withoutWasteBound.explore tries best place ∧
      (goal.visits tries best place).Sublist (goal.withoutWasteBound.visits tries best place) := by
  -- The search that goes on may need many visits to leave a wasteful place.
  induction tries using Nat.strong_induction_on generalizing best place with
  | _ tries ih =>
  obtain ⟨tries, rfl⟩ := exists_succ_of_exhausted exhausted
  by_cases bounded : goal.boundsWaste = true ∧ best.waste < totalWaste (chosen place.decided)
  · have visited := visit_of_bounds bounded
    have undecidedNonneg : ∀ candidate ∈ place.undecided, 0 ≤ candidate.exactWaste :=
      fun candidate member =>
        nonneg bounded.1 candidate (all ▸ place.undecided_sublist.subset member)
    have leaves : goal.withoutWasteBound.Leaves best (tries + 1) place :=
      leaves_of_wasteful undecidedNonneg bounded.2 exhausted
    unfold Goal.Leaves at leaves
    cases retreated : place.retreat with
    | none =>
        rw [retreated] at visited leaves
        rw [explore_of_last visited, visits_of_last visited, leaves]
        exact ⟨rfl, (List.nil_sublist _).cons_cons _⟩
    | some next =>
        rw [retreated] at visited leaves
        obtain ⟨fewer, leads⟩ := leaves
        rw [leads.explore_eq] at exhausted
        obtain ⟨explore_eq, sublist⟩ :=
          ih fewer leads.fewer_lt ((visit_candidates visited).trans all) exhausted
        obtain ⟨more_explore, more_visits⟩ :=
          explore_of_exhausted (Nat.le_of_lt_succ leads.fewer_lt) (explore_eq ▸ exhausted)
        obtain ⟨between, visits_eq⟩ := leads.visits_eq
        rw [explore_of_next visited, visits_of_next visited, more_explore, more_visits,
          leads.explore_eq, visits_eq]
        exact ⟨explore_eq, (sublist.trans (List.sublist_append_right between _)).cons_cons _⟩
  · have same := visit_withoutWasteBound bounded
    cases visited : goal.visit best place with
    | mk better next =>
        rw [visited] at same
        cases next with
        | none =>
            rw [explore_of_last visited, visits_of_last visited, explore_of_last same,
              visits_of_last same]
            exact ⟨rfl, .refl _⟩
        | some next =>
            rw [explore_of_next same] at exhausted
            rw [explore_of_next visited, visits_of_next visited, explore_of_next same,
              visits_of_next same]
            obtain ⟨explore_eq, sublist⟩ :=
              ih tries (Nat.lt_succ_self tries) ((visit_candidates visited).trans all) exhausted
            exact ⟨explore_eq, sublist.cons_cons _⟩

/-! ## Searches over nodes -/

/-- Retreating from a place whose waste fits does not fail, if no candidate has a
negative waste. -/
theorem retreat_eq_ok_of_nonneg (positive : Positive place.candidates)
    (fits : worth place.candidates ≤ greatestSigned)
    (nonneg : ∀ candidate ∈ place.candidates, 0 ≤ candidate.exactWaste)
    (wasteFits : FitsSigned (totalWaste (chosen place.decided))) :
    place.node.retreat = .ok (place.retreat.map Place.node) := by
  refine retreatFrom_eq_ok positive fits fun candidate earlier suffix => ?_
  obtain ⟨later, decided_eq⟩ := suffix
  have chosen_nonneg (other : Candidate) (member : other ∈ chosen place.decided) :
      0 ≤ other.exactWaste :=
    nonneg other (place.chosen_sublist.subset member)
  rw [← decided_eq, chosen_append, chosen_selected] at wasteFits chosen_nonneg
  have earlier_nonneg : 0 ≤ totalWaste (chosen earlier) :=
    totalWaste_nonneg fun other member => chosen_nonneg other (by simp [member])
  have later_nonneg : 0 ≤ totalWaste (chosen later) :=
    totalWaste_nonneg fun other member => chosen_nonneg other (by simp [member])
  have candidate_nonneg := chosen_nonneg candidate (by simp)
  simp only [totalWaste_append, totalWaste_cons, totalWaste_nil] at wasteFits
  have total_le := wasteFits.2
  exact ⟨fitsSigned_of_nonneg candidate_nonneg (by omega),
    fitsSigned_of_nonneg earlier_nonneg (by omega)⟩

/-- Where a step of the search that goes on does not fail, neither does that of
the search that gives up. -/
theorem step_of_withoutWasteBound (positive : Positive place.candidates)
    (fits : worth place.candidates ≤ greatestSigned)
    (nonneg : goal.boundsWaste = true → ∀ candidate ∈ place.candidates, 0 ≤ candidate.exactWaste)
    (wasteFits : FitsSigned (totalWaste (chosen place.decided)))
    (stepped : ∃ result, goal.withoutWasteBound.step best place.node = .ok result) :
    ∃ result, goal.step best place.node = .ok result := by
  by_cases bounded : goal.boundsWaste = true ∧ best.waste < totalWaste (chosen place.decided)
  · have reachable : FitsSigned (place.node.value + place.node.available) := by
      simpa [Place.node] using
        fitsSigned_worth positive fits place.chosen_append_undecided_sublist
    have judged : goal.judge best.waste place.node = .ok .dead := by
      rw [Goal.judge, addSigned_of_fits reachable, ok_bind]
      exact if_pos (.inr (.inr bounded))
    rw [Goal.step, judged, ok_bind]
    dsimp only
    rw [retreat_eq_ok_of_nonneg positive fits (nonneg bounded.1) wasteFits]
    exact ⟨_, rfl⟩
  · rw [Goal.step, judge_withoutWasteBound bounded] at stepped
    exact stepped

/-- If the search that goes on reports that it is exhausted, the search that
gives up reports the same. -/
theorem run_of_withoutWasteBound {candidates : List Candidate} {report : Report}
    (positive : Positive candidates) (fits : worth candidates ≤ greatestSigned)
    (nonneg : goal.boundsWaste = true → ∀ candidate ∈ candidates, 0 ≤ candidate.exactWaste)
    (ran : goal.withoutWasteBound.run tries {} (Place.start candidates).node = .ok report)
    (exhausted : report.exhausted = true) :
    goal.run tries {} (Place.start candidates).node = .ok report := by
  have nothing : FitsSigned 0 := ⟨by decide, by decide⟩
  have wastes := visits_waste_fit ran nothing
  obtain ⟨rfl, finished⟩ := run_eq_ok_iff.mp ran
  obtain ⟨explore_eq, sublist⟩ :=
    explore_withoutWasteBound nonneg (Place.start_candidates candidates) exhausted
  refine run_eq_ok_iff.mpr ⟨explore_eq.symm, fun visited member => ?_⟩
  have same : visited.2.candidates = candidates := visits_candidates tries visited member
  have going := sublist.subset member
  exact step_of_withoutWasteBound (same ▸ positive) (same ▸ fits) (same ▸ nonneg)
    (wastes visited going) (finished visited going)

end Bound

/-! ## The search of branch and bound -/

section Search

variable {effective longTerm : FeeCalculator} {candidates : List Candidate}
  {target tries costOfChange : Nat} {report : Report}

/-- Take candidates at one pair of rates.  If the search among them that does not
give up on waste is exhausted within its visits, then so is the search that
does, within as many, and it reports the same.  Branch and bound answers with
that report. -/
theorem search_wasteBound_lossless
    (priced : ∀ candidate ∈ candidates, PricedAt effective longTerm candidate)
    (searched : search { waste := false } tries costOfChange candidates target = .ok report)
    (exhausted : report.exhausted = true) (within : tries ≤ totalTries) :
    search {} tries costOfChange candidates target = .ok report ∧
      select costOfChange candidates target = report.selection := by
  obtain ⟨positive, fits⟩ := positive_of_search searched
  have perm := largestFirst_perm candidates
  obtain ⟨enough, first, first_eq, _⟩ := exists_explore positive fits searched
  rw [search_of_le positive fits enough, first_eq, ok_bind] at searched
  have ran : (Goal.above {} target costOfChange first).run tries {}
      (Place.start (largestFirst candidates)).node = .ok report := by
    refine run_of_withoutWasteBound (positive.subset perm.subset) ((worth_perm perm).trans_le fits)
      (fun bounds => ?_) searched exhausted
    refine exactWaste_nonneg_of_first (fun _ member => priced _ (perm.subset member)) first_eq ?_
    exact of_decide_eq_true bounds
  constructor
  · rw [search_of_le positive fits enough, first_eq, ok_bind, ran]
  · rw [select, search_of_le positive fits enough, first_eq, ok_bind,
      run_of_exhausted within ran exhausted, ok_bind]

/-- Four outputs, the first of which meets a target of 500 without the others. -/
def fourOutputs : List Utxo :=
  [541, 241, 221, 201].mapIdx fun index amount =>
    { outpoint := ⟨⟨Vector.replicate 32 0⟩, index.toUInt32⟩, amount }

theorem search_wasteBound_lossless_fourOutputs :
    ∃ report,
      search { waste := false } 9 10 (halvingFees.candidates 0 fourOutputs) 500 = .ok report ∧
      search {} 9 10 (halvingFees.candidates 0 fourOutputs) 500 = .ok report ∧
      select 10 (halvingFees.candidates 0 fourOutputs) 500 = report.selection := by
  have prices : ∀ utxo ∈ fourOutputs, halvingFees.Prices utxo := by
    have priced : economicCandidates halvingFees 0 fourOutputs =
        .ok (halvingFees.candidates 0 fourOutputs) := by
      decide +kernel
    exact (Fees.economicCandidates_eq_ok_iff.mp priced).1
  have ordered : largestFirst (halvingFees.candidates 0 fourOutputs) =
      halvingFees.candidates 0 fourOutputs :=
    largestFirst_of_sorted (by decide +kernel)
  have exhausted : (search { waste := false } 9 10 (halvingFees.candidates 0 fourOutputs) 500).map
      Report.exhausted = .ok true := by
    rw [search, ordered]
    decide +kernel
  obtain ⟨report, searched, exhausted⟩ := map_eq_ok_iff.mp exhausted
  exact ⟨report, searched, search_wasteBound_lossless (fun _ member => Fees.pricedAt prices member)
    searched exhausted (by decide)⟩

end Search

end CoinSelection.BranchAndBound
