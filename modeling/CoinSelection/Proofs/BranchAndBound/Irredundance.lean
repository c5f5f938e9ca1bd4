import CoinSelection.Proofs.BranchAndBound.Selection

/-!
# Irredundancy of a selection

A search goes on only from places below its target.  Whatever was selected
before the latest decision, or before any other, is therefore short of the
target, so a place in the window reaches it with its latest candidate.  This is
the smallest one, and without any of the others the place would be short of the
target as well.
-/

namespace CoinSelection.BranchAndBound

open Candidate Checked Outcome

/-! ## Short of the target until the latest decision -/

/-- What is selected before each decision is short of the target. -/
def Place.Short (target : Int) (place : Place) : Prop :=
  ∀ decision earlier, decision :: earlier <:+ place.decided → worth (chosen earlier) < target

section Short

variable {goal : Goal} {best better : Best} {place next : Place} {target : Int}

theorem Place.short_start (candidates : List Candidate) :
    (Place.start candidates).Short target := by
  intro decision earlier suffix
  cases List.suffix_nil.mp suffix

theorem Place.Short.advance {skipEqual : Bool} (short : place.Short target)
    (below : worth (chosen place.decided) < target)
    (moved : place.advance skipEqual = some next) : next.Short target := by
  obtain ⟨decided, undecided⟩ := place
  cases undecided with
  | nil => cases moved
  | cons candidate rest =>
      cases moved
      intro decision earlier suffix
      rcases List.suffix_cons_iff.mp suffix with same | before
      · obtain ⟨rfl, rfl⟩ := List.cons.inj same
        exact below
      · exact short decision earlier before

/-- A turned decision follows the same decisions as before. -/
theorem Place.Short.retreatFrom {decided : List Decision} {undecided : List Candidate}
    (short : Place.Short target ⟨decided, undecided⟩)
    (moved : Place.retreatFrom decided undecided = some next) : next.Short target := by
  fun_induction Place.retreatFrom decided undecided with
  | case1 => cases moved
  | case2 undecided candidate earlier ih =>
      refine ih (fun decision before suffix => ?_) moved
      exact short decision before (suffix.trans (List.suffix_cons _ _))
  | case3 undecided candidate earlier =>
      cases moved
      intro decision before suffix
      rcases List.suffix_cons_iff.mp suffix with same | suffix
      · obtain ⟨rfl, rfl⟩ := List.cons.inj same
        exact short _ _ List.suffix_rfl
      · exact short decision before (suffix.trans (List.suffix_cons _ _))

theorem worth_lt_of_below {leastWaste : Int} (below : goal.verdict leastWaste place = .below) :
    worth (chosen place.decided) < goal.target := by
  unfold Goal.verdict at below
  dsimp only at below
  split at below
  · cases below
  split at below
  · cases below
  · rename_i short
    exact not_le.mp short

theorem Place.Short.visit (short : place.Short goal.target)
    (visited : goal.visit best place = (better, some next)) : next.Short goal.target := by
  unfold Goal.visit at visited
  split at visited <;> rw [Prod.mk.injEq] at visited
  · rename_i below
    exact short.advance (worth_lt_of_below below) visited.2
  · exact short.retreatFrom visited.2
  · exact short.retreatFrom visited.2

end Short

/-! ## No candidate is superfluous -/

/-- Without any one of its candidates, a selection is short of the target. -/
def Irredundant (target : Int) (part : List Candidate) : Prop :=
  ∀ candidate ∈ part, worth part - candidate.effectiveValue < target

/-- The best selection, if there is one, has no superfluous candidate. -/
def Best.Irredundant (target : Int) (best : Best) : Prop :=
  ∀ part, best.selection? = some part → BranchAndBound.Irredundant target part

section Irredundant

variable {goal : Goal} {best : Best} {place : Place} {candidates : List Candidate}

/-- A place that reaches the target only with its latest decision selects no
superfluous candidate, since later candidates are worth no more. -/
theorem Place.Short.irredundant {target : Int} (short : place.Short target)
    (ordered : place.candidates.Pairwise fun first second => first.precedes second = true)
    (reached : target ≤ worth (chosen place.decided)) :
    Irredundant target (chosen place.decided) := by
  have chosenOrdered := ordered.sublist place.chosen_sublist
  obtain ⟨decided, undecided⟩ := place
  intro candidate member
  match decided with
  | [] => cases member
  | (latest, false) :: earlier =>
      rw [chosen_omitted] at reached
      exact absurd (short _ _ List.suffix_rfl) (not_lt.mpr reached)
  | (latest, true) :: earlier =>
      have before := short _ _ List.suffix_rfl
      rw [chosen_selected] at member chosenOrdered ⊢
      have latest_le : latest.effectiveValue ≤ candidate.effectiveValue := by
        rcases List.mem_append.mp member with earlierMember | same
        · exact effectiveValue_le_of_precedes
            ((List.pairwise_append.mp chosenOrdered).2.2 _ earlierMember _ List.mem_cons_self)
        · rw [List.mem_singleton.mp same]
      rw [worth_append, worth_cons, worth_nil]
      omega

theorem visit_irredundant (short : place.Short goal.target)
    (ordered : place.candidates.Pairwise fun first second => first.precedes second = true)
    (irredundant : best.Irredundant goal.target) :
    (goal.visit best place).1.Irredundant goal.target := by
  unfold Goal.visit
  cases judged : goal.verdict best.waste place with
  | below => exact irredundant
  | dead => exact irredundant
  | hit waste =>
      have here := short.irredundant ordered (admits_of_hit judged).1.target_le
      dsimp only
      unfold Best.record
      split
      · intro part found
        obtain rfl : chosen place.decided = part := by simpa [Best.selection?] using found
        exact here
      · exact irredundant

/-- The best selection of a search has no superfluous candidate, whether or not
the search is exhausted. -/
theorem explore_irredundant
    (ordered : candidates.Pairwise fun first second => first.precedes second = true) (tries : Nat) :
    (goal.explore tries {} (.start candidates)).best.Irredundant goal.target := by
  have nothing : Best.Irredundant goal.target {} := fun part found => by cases found
  refine explore_keeps (fun visited member irredundant => ?_) nothing
  have short : visited.2.Short goal.target :=
    visits_keep (fun _ place => place.Short goal.target)
      (fun _ _ short _ _ moved => short.visit moved) (Place.short_start candidates) visited member
  have all : visited.2.candidates = candidates := visits_candidates tries visited member
  exact visit_irredundant short (all ▸ ordered) irredundant

end Irredundant

/-! ## The selection of branch and bound -/

/-- Take whatever branch and bound selects, exhausted or not.  It is a part of
the candidates in the order of the search, it lies in the window, and without
any one of its candidates it is short of the target. -/
theorem select_irredundant {candidates selected : List Candidate} {target costOfChange : Nat}
    (finished : select costOfChange candidates target = .ok selected) :
    selected.Sublist (largestFirst candidates) ∧
      (target : Int) ≤ worth selected ∧
      worth selected ≤ min ((target : Int) + costOfChange) greatestSigned ∧
      ∀ candidate ∈ selected, worth selected - candidate.effectiveValue < target := by
  obtain ⟨report, searched, found⟩ := select_eq_ok_iff.mp finished
  obtain ⟨positive, fits⟩ := positive_of_search searched
  obtain ⟨sublist, reaches, within⟩ := select_sound positive fits finished
  obtain ⟨_, first, _, rfl⟩ := exists_explore positive fits searched
  have selected_le :=
    positive.worth_le (sublist.subperm.trans (largestFirst_perm candidates).subperm)
  exact ⟨sublist, reaches, le_min within (selected_le.trans fits),
    explore_irredundant (largestFirst_pairwise candidates) totalTries _ found⟩

/-- Four candidates, the first and last or the second and third of which meet a
target of 400. -/
def fourCandidates : List Candidate :=
  [Candidate.free 0 300, Candidate.free 1 250, Candidate.free 2 150, Candidate.free 3 100]

theorem select_irredundant_fourCandidates :
    select 10 fourCandidates 400 = .ok [Candidate.free 1 250, Candidate.free 2 150] ∧
      ∀ candidate ∈ [Candidate.free 1 250, Candidate.free 2 150],
        worth [Candidate.free 1 250, Candidate.free 2 150] - candidate.effectiveValue < 400 := by
  have ordered : largestFirst fourCandidates = fourCandidates :=
    largestFirst_of_sorted (by decide +kernel)
  have finished : select 10 fourCandidates 400 =
      .ok [Candidate.free 1 250, Candidate.free 2 150] := by
    rw [select, search, ordered]
    decide +kernel
  exact ⟨finished, (select_irredundant finished).2.2.2⟩

end CoinSelection.BranchAndBound
