import CoinSelection.Proofs.BranchAndBound.Place

/-!
# The search with exact sums

One step of the checked search yields the step over places, and so does a
whole run.  Where the effective values are positive and the sums over parts of
the candidates fit, no step fails: the values lie between zero and the worth of
all candidates, and a node below the target always has a candidate left.
-/

namespace CoinSelection.BranchAndBound

open Candidate Checked Outcome

/-! ## Steps that finish -/

section Yields

variable {place : Place} {goal : Goal} {best : Best}

theorem advance_yields {skipEqual : Bool} {next : Place}
    (moved : place.advance skipEqual = some next) :
    (place.node.advance skipEqual).Yields next.node := by
  obtain ⟨decided, undecided⟩ := place
  cases undecided with
  | nil => cases moved
  | cons candidate rest =>
      cases moved
      apply Yields.bind (subSigned_yields _ _)
      have available_eq : worth (candidate :: rest) - candidate.effectiveValue = worth rest := by
        simp
      simp only [Place.node, available_eq]
      split
      · rename_i skips
        simpa [skips, Place.node] using yields_pure _
      · rename_i selects
        apply Yields.bind (addSigned_yields _ _)
        apply Yields.bind (fun _ finished => (waste_eq_ok_iff.mp finished).2)
        apply Yields.bind (addSigned_yields _ _)
        simpa [selects, Place.node] using yields_pure _

theorem retreatFrom_yields (decided : List Decision) (undecided : List Candidate) :
    (Node.retreatFrom (worth (chosen decided)) (totalWaste (chosen decided)) decided undecided
      (worth undecided)).Yields ((Place.retreatFrom decided undecided).map Place.node) := by
  induction decided generalizing undecided with
  | nil => exact yields_pure _
  | cons decision earlier ih =>
      obtain ⟨candidate, taken⟩ := decision
      cases taken with
      | false =>
          apply Yields.bind (addSigned_yields _ _)
          have restored_eq : worth undecided + candidate.effectiveValue =
              worth (candidate :: undecided) := by
            rw [worth_cons, add_comm]
          rw [restored_eq, chosen_omitted]
          exact ih (candidate :: undecided)
      | true =>
          apply Yields.bind (subSigned_yields _ _)
          apply Yields.bind (fun _ finished => (waste_eq_ok_iff.mp finished).2)
          apply Yields.bind (subSigned_yields _ _)
          simpa [Place.retreatFrom, Place.node] using yields_pure _

theorem retreat_yields (place : Place) :
    place.node.retreat.Yields (place.retreat.map Place.node) :=
  retreatFrom_yields place.decided place.undecided

theorem judge_yields (leastWaste : Int) :
    (goal.judge leastWaste place.node).Yields (goal.verdict leastWaste place) := by
  apply Yields.bind (addSigned_yields _ _)
  unfold Goal.verdict
  dsimp only
  split
  · exact yields_pure _
  split
  · exact Yields.bind (subSigned_yields _ _) (Yields.bind (addSigned_yields _ _) (yields_pure _))
  · exact yields_pure _

/-- There is nothing to advance to after the last candidate. -/
theorem advance_of_nil {skipEqual : Bool} (empty : place.undecided = []) :
    place.node.advance skipEqual = abort (.missingCandidate place.decided.length) := by
  simp [Node.advance, Place.node, empty]

theorem step_yields :
    (goal.step best place.node).Yields
      ((goal.visit best place).1, (goal.visit best place).2.map Place.node) := by
  apply Yields.bind (judge_yields best.waste)
  unfold Goal.visit
  cases goal.verdict best.waste place with
  | below =>
      cases moved : place.advance goal.skipsEqual with
      | none =>
          intro result finished
          obtain ⟨_, advance_eq, _⟩ := bind_eq_ok_iff.mp finished
          rw [advance_of_nil (Place.advance_eq_none_iff.mp moved)] at advance_eq
          cases advance_eq
      | some next => exact Yields.bind (advance_yields moved) (yields_pure _)
  | dead => exact Yields.bind (retreat_yields place) (yields_pure _)
  | hit waste => exact Yields.bind (retreat_yields place) (yields_pure _)

end Yields

/-! ## Sums that fit -/

/-- The effective values are positive, and the sums that a search for a target
may form fit. -/
structure SumsFit (candidates : List Candidate) (target : Int) : Prop where
  positive : Positive candidates
  worth : worth candidates ≤ greatestSigned
  waste : ∀ part : List Candidate, part.Sublist candidates → FitsSigned (totalWaste part)
  excess : ∀ part : List Candidate, part.Sublist candidates → target ≤ Candidate.worth part →
    FitsSigned (totalWaste part + (Candidate.worth part - target))

section SumsFit

variable {candidates part : List Candidate} {target : Int}

/-- The worth of a part fits where that of all candidates does. -/
theorem fitsSigned_worth (positive : Positive candidates)
    (fits : Candidate.worth candidates ≤ greatestSigned) (sublist : part.Sublist candidates) :
    FitsSigned (Candidate.worth part) :=
  fitsSigned_of_nonneg (positive.subset sublist.subset).worth_nonneg
    ((positive.worth_le sublist.subperm).trans fits)

/-- Sums fit in any order of the candidates. -/
theorem SumsFit.perm {arranged : List Candidate} (fits : SumsFit candidates target)
    (perm : arranged.Perm candidates) : SumsFit arranged target where
  positive := fits.positive.subset perm.subset
  worth := worth_perm perm ▸ fits.worth
  waste part sublist := by
    obtain ⟨other, otherPerm, otherSublist⟩ := sublist.subperm.trans perm.subperm
    rw [← totalWaste_perm otherPerm]
    exact fits.waste other otherSublist
  excess part sublist reached := by
    obtain ⟨other, otherPerm, otherSublist⟩ := sublist.subperm.trans perm.subperm
    rw [← worth_perm otherPerm] at reached ⊢
    rw [← totalWaste_perm otherPerm]
    exact fits.excess other otherSublist reached

theorem SumsFit.worth_part (fits : SumsFit candidates target) (sublist : part.Sublist candidates) :
    FitsSigned (Candidate.worth part) :=
  fitsSigned_worth fits.positive fits.worth sublist

/-- The waste of a candidate fits. -/
theorem SumsFit.exactWaste {candidate : Candidate} (fits : SumsFit candidates target)
    (member : candidate ∈ candidates) : FitsSigned candidate.exactWaste := by
  simpa using fits.waste [candidate] (List.singleton_sublist.mpr member)

theorem SumsFit.waste_eq_ok {candidate : Candidate} (fits : SumsFit candidates target)
    (member : candidate ∈ candidates) : candidate.waste = .ok candidate.exactWaste :=
  waste_eq_ok_iff.mpr ⟨fits.exactWaste member, rfl⟩

end SumsFit

/-! ## Steps that do not fail -/

section Finish

variable {place : Place} {goal : Goal} {best : Best} {target : Int}

theorem advance_eq_ok {skipEqual : Bool} {next : Place}
    (fits : SumsFit place.candidates target) (moved : place.advance skipEqual = some next) :
    place.node.advance skipEqual = .ok next.node := by
  apply (advance_yields moved).eq_ok
  obtain ⟨decided, undecided⟩ := place
  cases undecided with
  | nil => cases moved
  | cons candidate rest =>
      have all := Place.chosen_append_undecided_sublist ⟨decided, candidate :: rest⟩
      have member : candidate ∈ Place.candidates ⟨decided, candidate :: rest⟩ :=
        all.subset (by simp)
      have selected : (chosen decided ++ [candidate]).Sublist
          (Place.candidates ⟨decided, candidate :: rest⟩) :=
        (List.Sublist.append_left (by simp) _).trans all
      have availableFits : FitsSigned (worth (candidate :: rest) - candidate.effectiveValue) := by
        have restFits := fits.worth_part ((List.sublist_append_right _ rest).trans
          ((List.Sublist.append_left (List.sublist_cons_self candidate rest) _).trans all))
        simpa using restFits
      have valueFits : FitsSigned (worth (chosen decided) + candidate.effectiveValue) := by
        simpa using fits.worth_part selected
      have wasteFits : FitsSigned (totalWaste (chosen decided) + candidate.exactWaste) := by
        simpa using fits.waste _ selected
      simp only [Node.advance, Place.node, subSigned_of_fits availableFits, ok_bind,
        addSigned_of_fits valueFits, fits.waste_eq_ok member, addSigned_of_fits wasteFits]
      split <;> exact ⟨_, rfl⟩

/-- Retreating does not fail where the wastes of earlier selections fit. -/
theorem retreatFrom_eq_ok {decided : List Decision} {undecided : List Candidate}
    (positive : Positive (Place.candidates ⟨decided, undecided⟩))
    (fits : worth (Place.candidates ⟨decided, undecided⟩) ≤ greatestSigned)
    (wastes : ∀ candidate earlier, (candidate, true) :: earlier <:+ decided →
      FitsSigned candidate.exactWaste ∧ FitsSigned (totalWaste (chosen earlier))) :
    Node.retreatFrom (worth (chosen decided)) (totalWaste (chosen decided)) decided undecided
      (worth undecided) = .ok ((Place.retreatFrom decided undecided).map Place.node) := by
  apply (retreatFrom_yields decided undecided).eq_ok
  induction decided generalizing undecided with
  | nil => exact ⟨none, rfl⟩
  | cons decision earlier ih =>
      obtain ⟨candidate, taken⟩ := decision
      have candidates_eq : Place.candidates ⟨(candidate, taken) :: earlier, undecided⟩ =
          Place.candidates ⟨earlier, candidate :: undecided⟩ := by
        simp [Place.candidates]
      rw [candidates_eq] at positive fits
      cases taken with
      | false =>
          have restored_eq : worth undecided + candidate.effectiveValue =
              worth (candidate :: undecided) := by
            rw [worth_cons, add_comm]
          have restoredFits : FitsSigned (worth undecided + candidate.effectiveValue) := by
            rw [restored_eq]
            exact fitsSigned_worth positive fits
              (Place.undecided_sublist ⟨earlier, candidate :: undecided⟩)
          rw [Node.retreatFrom, addSigned_of_fits restoredFits, ok_bind, restored_eq,
            chosen_omitted]
          refine ih positive fits fun other before suffix => ?_
          exact wastes other before (suffix.trans (List.suffix_cons _ _))
      | true =>
          obtain ⟨candidateFits, remainingFits⟩ := wastes candidate earlier List.suffix_rfl
          have remaining := Place.chosen_sublist ⟨earlier, candidate :: undecided⟩
          have valueFits : FitsSigned
              (worth (chosen ((candidate, true) :: earlier)) - candidate.effectiveValue) := by
            simpa using fitsSigned_worth positive fits remaining
          have wasteFits : FitsSigned
              (totalWaste (chosen ((candidate, true) :: earlier)) - candidate.exactWaste) := by
            simpa using remainingFits
          rw [Node.retreatFrom, subSigned_of_fits valueFits, ok_bind,
            waste_eq_ok_iff.mpr ⟨candidateFits, rfl⟩, ok_bind, subSigned_of_fits wasteFits]
          exact ⟨_, rfl⟩

theorem retreat_eq_ok (fits : SumsFit place.candidates target) :
    place.node.retreat = .ok (place.retreat.map Place.node) := by
  refine retreatFrom_eq_ok fits.positive fits.worth fun candidate earlier suffix => ?_
  have selected : (chosen earlier ++ [candidate]).Sublist place.candidates := by
    obtain ⟨later, decided_eq⟩ := suffix
    have all := place.chosen_sublist
    rw [← decided_eq, chosen_append, chosen_selected] at all
    exact (List.sublist_append_left _ _).trans all
  exact ⟨fits.exactWaste (selected.subset (by simp)),
    fits.waste _ ((List.sublist_append_left _ _).trans selected)⟩

theorem judge_eq_ok (fits : SumsFit place.candidates goal.target) (targetNonneg : 0 ≤ goal.target)
    (leastWaste : Int) :
    goal.judge leastWaste place.node = .ok (goal.verdict leastWaste place) := by
  apply (judge_yields leastWaste).eq_ok
  have selected := place.chosen_sublist
  have reachableFits : FitsSigned (place.node.value + place.node.available) := by
    simpa [Place.node] using fits.worth_part place.chosen_append_undecided_sublist
  rw [Goal.judge, addSigned_of_fits reachableFits, ok_bind]
  split
  · exact ⟨_, rfl⟩
  split
  · rename_i reached
    have excessFits : FitsSigned (place.node.value - goal.target) :=
      fitsSigned_of_nonneg (sub_nonneg.mpr reached)
        ((sub_le_self _ targetNonneg).trans (fits.worth_part selected).2)
    have wasteFits : FitsSigned (place.node.waste + (place.node.value - goal.target)) :=
      fits.excess _ selected reached
    rw [subSigned_of_fits excessFits, ok_bind, addSigned_of_fits wasteFits]
    exact ⟨_, rfl⟩
  · exact ⟨_, rfl⟩

/-- Below the target there is a candidate left. -/
theorem exists_advance {leastWaste : Int} (below : goal.verdict leastWaste place = .below) :
    ∃ next, place.advance goal.skipsEqual = some next := by
  rw [← Option.ne_none_iff_exists', Ne, Place.advance_eq_none_iff]
  intro empty
  unfold Goal.verdict at below
  simp only [Place.node, empty, worth_nil, add_zero] at below
  split at below
  · cases below
  · rename_i alive
    split at below
    · cases below
    · rename_i short
      exact alive (.inl (not_le.mp short))

theorem step_eq_ok (fits : SumsFit place.candidates goal.target) (targetNonneg : 0 ≤ goal.target) :
    goal.step best place.node =
      .ok ((goal.visit best place).1, (goal.visit best place).2.map Place.node) := by
  rw [Goal.step, judge_eq_ok fits targetNonneg, ok_bind, Goal.visit]
  cases judged : goal.verdict best.waste place with
  | below =>
      obtain ⟨next, moved⟩ := exists_advance judged
      simp only [moved, advance_eq_ok fits moved]
      rfl
  | dead =>
      simp only [retreat_eq_ok fits]
      rfl
  | hit waste =>
      simp only [retreat_eq_ok fits]
      rfl

theorem visit_candidates {better : Best} {next : Place}
    (visited : goal.visit best place = (better, some next)) :
    next.candidates = place.candidates := by
  unfold Goal.visit at visited
  split at visited <;> rw [Prod.mk.injEq] at visited
  · exact Place.advance_candidates visited.2
  · exact Place.retreat_candidates visited.2
  · exact Place.retreat_candidates visited.2

end Finish

end CoinSelection.BranchAndBound
