import CoinSelection.BranchAndBound.Search
import CoinSelection.Proofs.Candidates

/-!
# Places of the search

The running sums of a node are those of its decisions, so a node is determined
by its place: the decisions and the candidates still to be decided.  This file
repeats the search over places with exact sums.  The search over nodes yields
the same report whenever it reports at all, and it reports whenever the sums
over parts of the candidates fit.
-/

namespace CoinSelection

open Checked Outcome

/-! ## Exact waste -/

namespace Candidate

/-- What spending a candidate now costs more than in the long run, with both
fees as signed words. -/
def exactWaste (candidate : Candidate) : Int :=
  reinterpret candidate.fee - reinterpret candidate.longTermFee

/-- The sum of wastes. -/
def totalWaste (candidates : List Candidate) : Int :=
  (candidates.map exactWaste).sum

@[simp]
theorem totalWaste_nil : totalWaste [] = 0 :=
  rfl

@[simp]
theorem totalWaste_cons (candidate : Candidate) (rest : List Candidate) :
    totalWaste (candidate :: rest) = candidate.exactWaste + totalWaste rest := by
  rw [totalWaste, List.map_cons, List.sum_cons, totalWaste]

@[simp]
theorem totalWaste_append (first second : List Candidate) :
    totalWaste (first ++ second) = totalWaste first + totalWaste second := by
  rw [totalWaste, List.map_append, List.sum_append, totalWaste, totalWaste]

theorem totalWaste_perm {first second : List Candidate} (perm : first.Perm second) :
    totalWaste first = totalWaste second :=
  (perm.map exactWaste).sum_eq

theorem totalWaste_nonneg {candidates : List Candidate}
    (nonneg : ∀ candidate ∈ candidates, 0 ≤ candidate.exactWaste) : 0 ≤ totalWaste candidates :=
  List.sum_nonneg (by simpa using nonneg)

/-- Where no waste is negative, a part of a list wastes no more than the list. -/
theorem totalWaste_le {part whole : List Candidate}
    (nonneg : ∀ candidate ∈ whole, 0 ≤ candidate.exactWaste) (subperm : part.Subperm whole) :
    totalWaste part ≤ totalWaste whole := by
  obtain ⟨arranged, perm, sublist⟩ := subperm
  rw [← totalWaste_perm perm]
  exact (sublist.map exactWaste).sum_le_sum (by simpa using nonneg)

theorem waste_eq_ok_iff {candidate : Candidate} {waste : Int} :
    candidate.waste = .ok waste ↔
      FitsSigned candidate.exactWaste ∧ waste = candidate.exactWaste :=
  subSigned_eq_ok_iff

end Candidate

namespace BranchAndBound

open Candidate

theorem chosen_append (later earlier : List Decision) :
    chosen (later ++ earlier) = chosen earlier ++ chosen later := by
  simp [chosen]

/-! ## Places -/

/-- Decisions, latest first, and the candidates still to be decided. -/
structure Place where
  decided : List Decision
  undecided : List Candidate

namespace Place

/-- The node at a place, with exact sums. -/
def node (place : Place) : Node where
  decided := place.decided
  undecided := place.undecided
  value := worth (chosen place.decided)
  available := worth place.undecided
  waste := totalWaste (chosen place.decided)

/-- All candidates of the search, in its order. -/
def candidates (place : Place) : List Candidate :=
  place.decided.reverse.map Prod.fst ++ place.undecided

/-- No candidate is decided yet. -/
def start (candidates : List Candidate) : Place :=
  ⟨[], candidates⟩

@[simp]
theorem start_candidates (candidates : List Candidate) :
    (start candidates).candidates = candidates :=
  rfl

/-- A search starts at its root, with everything available. -/
theorem node_start_largestFirst (candidates : List Candidate) :
    (start (largestFirst candidates)).node =
      Node.root (largestFirst candidates) (worth candidates) := by
  rw [← worth_perm (largestFirst_perm candidates)]
  rfl

/-- Decide the next candidate. -/
def advance (skipEqual : Bool) (place : Place) : Option Place :=
  match place.undecided with
  | [] => none
  | candidate :: rest =>
      some ⟨(candidate, !(skipEqual && Node.repeatsOmission place.decided candidate)) ::
        place.decided, rest⟩

/-- Turn the latest decision that selected a candidate. -/
def retreatFrom : List Decision → List Candidate → Option Place
  | [], _ => none
  | (candidate, false) :: earlier, undecided => retreatFrom earlier (candidate :: undecided)
  | (candidate, true) :: earlier, undecided => some ⟨(candidate, false) :: earlier, undecided⟩

/-- The next place of the search that does not extend this one. -/
def retreat (place : Place) : Option Place :=
  retreatFrom place.decided place.undecided

theorem advance_eq_none_iff {skipEqual : Bool} {place : Place} :
    place.advance skipEqual = none ↔ place.undecided = [] := by
  unfold advance
  split <;> simp_all

/-! ## What a place keeps -/

theorem chosen_sublist (place : Place) : (chosen place.decided).Sublist place.candidates := by
  have part := (List.filter_sublist (p := fun decision : Decision => decision.2)
    (l := place.decided.reverse)).map Prod.fst
  exact part.trans (List.sublist_append_left _ _)

theorem undecided_sublist (place : Place) : place.undecided.Sublist place.candidates :=
  List.sublist_append_right _ _

/-- What is selected and what is undecided are different parts. -/
theorem chosen_append_undecided_sublist (place : Place) :
    (chosen place.decided ++ place.undecided).Sublist place.candidates := by
  have part := (List.filter_sublist (p := fun decision : Decision => decision.2)
    (l := place.decided.reverse)).map Prod.fst
  exact part.append_right place.undecided

theorem advance_candidates {skipEqual : Bool} {place next : Place}
    (moved : place.advance skipEqual = some next) : next.candidates = place.candidates := by
  unfold advance at moved
  split at moved
  · cases moved
  · rename_i candidate rest undecided_eq
    cases moved
    simp [candidates, undecided_eq]

theorem retreatFrom_candidates {decided : List Decision} {undecided : List Candidate}
    {next : Place} (moved : retreatFrom decided undecided = some next) :
    next.candidates = Place.candidates ⟨decided, undecided⟩ := by
  fun_induction retreatFrom decided undecided with
  | case1 => cases moved
  | case2 undecided candidate earlier ih =>
      rw [ih moved]
      simp [candidates]
  | case3 undecided candidate earlier =>
      cases moved
      simp [candidates]

theorem retreat_candidates {place next : Place} (moved : place.retreat = some next) :
    next.candidates = place.candidates :=
  retreatFrom_candidates moved

end Place

/-! ## The search over places -/

namespace Goal

/-- The verdict on a place, given the least waste found so far. -/
def verdict (goal : Goal) (leastWaste : Int) (place : Place) : Verdict :=
  let node := place.node
  if node.value + node.available < goal.target ∨ goal.limit < node.value ∨
      (goal.boundsWaste ∧ leastWaste < node.waste) then
    .dead
  else if goal.target ≤ node.value then
    .hit (node.waste + (node.value - goal.target))
  else
    .below

/-- Visit one place: the best selection after it and the next place. -/
def visit (goal : Goal) (best : Best) (place : Place) : Best × Option Place :=
  match goal.verdict best.waste place with
  | .below => (best, place.advance goal.skipsEqual)
  | .dead => (best, place.retreat)
  | .hit waste => (best.record place.decided waste, place.retreat)

/-- Visit at most `tries` places. -/
def explore (goal : Goal) : Nat → Best → Place → Report
  | 0, best, _ => ⟨best, false⟩
  | tries + 1, best, place =>
      match goal.visit best place with
      | (better, some next) => explore goal tries better next
      | (better, none) => ⟨better, true⟩

/-- Visit one node: the best selection after it and the next node. -/
def step (goal : Goal) (best : Best) (node : Node) : Outcome (Best × Option Node) := do
  match ← goal.judge best.waste node with
  | .below =>
      let next ← node.advance goal.skipsEqual
      pure (best, some next)
  | .dead =>
      let next ← node.retreat
      pure (best, next)
  | .hit waste =>
      let next ← node.retreat
      pure (best.record node.decided waste, next)

/-- A search visits its first node and continues from the next one. -/
theorem run_succ (goal : Goal) (tries : Nat) (best : Best) (node : Node) :
    goal.run (tries + 1) best node = (do
      match ← goal.step best node with
      | (better, some next) => goal.run tries better next
      | (better, none) => pure ⟨better, true⟩) := by
  rw [run, step, bind_assoc]
  congr 1
  funext verdict
  cases verdict <;> simp only [bind_assoc, pure_bind] <;> congr 1 <;> funext next <;>
    cases next <;> rfl

end Goal

end BranchAndBound

end CoinSelection
