import CoinSelection.Proofs.BranchAndBound.Exact

/-!
# The visits of a search

A search is the list of its visits, each to a place with the best selection so
far.  What one visit hands on to the next holds at every visit, the report is
what the visits make of the first best selection, and the search over nodes
reports exactly when no visit fails.  Until then it goes through the nodes at
these places, and an exhausted search stays the same if it may visit more of
them.
-/

namespace CoinSelection.BranchAndBound

open Candidate Checked Outcome

/-- The visits of a search: the best selection before each, and its place. -/
def Goal.visits (goal : Goal) : Nat → Best → Place → List (Best × Place)
  | 0, _, _ => []
  | tries + 1, best, place =>
      (best, place) ::
        match goal.visit best place with
        | (better, some next) => visits goal tries better next
        | (_, none) => []

section Visits

variable {goal : Goal} {best better : Best} {place next : Place}

/-! ## One visit and the rest -/

theorem visits_of_next (visited : goal.visit best place = (better, some next)) (tries : Nat) :
    goal.visits (tries + 1) best place = (best, place) :: goal.visits tries better next := by
  rw [Goal.visits, visited]

theorem visits_of_last (visited : goal.visit best place = (better, none)) (tries : Nat) :
    goal.visits (tries + 1) best place = [(best, place)] := by
  rw [Goal.visits, visited]

theorem explore_of_next (visited : goal.visit best place = (better, some next)) (tries : Nat) :
    goal.explore (tries + 1) best place = goal.explore tries better next := by
  rw [Goal.explore, visited]

theorem explore_of_last (visited : goal.visit best place = (better, none)) (tries : Nat) :
    goal.explore (tries + 1) best place = ⟨better, true⟩ := by
  rw [Goal.explore, visited]

/-! ## What visits keep -/

/-- What every visit hands on to the next one holds at all of them. -/
theorem visits_keep (kept : Best → Place → Prop) {tries : Nat}
    (moves : ∀ visited ∈ goal.visits tries best place, kept visited.1 visited.2 →
      ∀ better next, goal.visit visited.1 visited.2 = (better, some next) → kept better next)
    (first : kept best place) :
    ∀ visited ∈ goal.visits tries best place, kept visited.1 visited.2 := by
  induction tries generalizing best place with
  | zero => simp [Goal.visits]
  | succ tries ih =>
      cases visited : goal.visit best place with
      | mk better next =>
          cases next with
          | none => simpa [visits_of_last visited] using first
          | some next =>
              rw [visits_of_next visited, List.forall_mem_cons] at moves ⊢
              exact ⟨first, ih moves.2 (moves.1 first better next visited)⟩

/-- Visits do not leave the candidates of the search. -/
theorem visits_candidates (tries : Nat) :
    ∀ visited ∈ goal.visits tries best place, visited.2.candidates = place.candidates := by
  refine visits_keep (fun _ other => other.candidates = place.candidates) ?_ rfl
  intro visited _ same better next moved
  exact (visit_candidates moved).trans same

/-- What every visit keeps of the best selection, a whole search keeps. -/
theorem explore_keeps {kept : Best → Prop} {tries : Nat}
    (keeps : ∀ visited ∈ goal.visits tries best place, kept visited.1 →
      kept (goal.visit visited.1 visited.2).1)
    (keptBest : kept best) : kept (goal.explore tries best place).best := by
  induction tries generalizing best place with
  | zero => exact keptBest
  | succ tries ih =>
      cases visited : goal.visit best place with
      | mk better next =>
          cases next with
          | none =>
              rw [visits_of_last visited, List.forall_mem_singleton, visited] at keeps
              rw [explore_of_last visited]
              exact keeps keptBest
          | some next =>
              rw [visits_of_next visited, List.forall_mem_cons, visited] at keeps
              rw [explore_of_next visited]
              exact ih keeps.2 (keeps.1 keptBest)

/-! ## Visits that do not fail -/

/-- A search over nodes reports what the search over places does, and exactly
when none of its steps fails. -/
theorem run_eq_ok_iff {tries : Nat} {report : Report} :
    goal.run tries best place.node = .ok report ↔
      report = goal.explore tries best place ∧
        ∀ visited ∈ goal.visits tries best place,
          ∃ result, goal.step visited.1 visited.2.node = .ok result := by
  induction tries generalizing best place with
  | zero => simp [Goal.run, Goal.explore, Goal.visits, eq_comm]
  | succ tries ih =>
      rw [Goal.run_succ, bind_eq_ok_iff]
      have only (result : Best × Option Node) (finished : goal.step best place.node = .ok result) :
          result = ((goal.visit best place).1, (goal.visit best place).2.map Place.node) :=
        step_yields result finished
      cases visited : goal.visit best place with
      | mk better next =>
          rw [visited] at only
          cases next with
          | none =>
              rw [visits_of_last visited, explore_of_last visited, List.forall_mem_singleton]
              constructor
              · rintro ⟨result, finished, report_eq⟩
                obtain rfl := only result finished
                exact ⟨(Except.ok.inj report_eq).symm, _, finished⟩
              · rintro ⟨rfl, result, finished⟩
                obtain rfl := only result finished
                exact ⟨_, finished, rfl⟩
          | some next =>
              rw [visits_of_next visited, explore_of_next visited, List.forall_mem_cons]
              constructor
              · rintro ⟨result, finished, rest⟩
                obtain rfl := only result finished
                obtain ⟨report_eq, others⟩ := ih.mp rest
                exact ⟨report_eq, ⟨_, finished⟩, others⟩
              · rintro ⟨report_eq, ⟨result, finished⟩, others⟩
                obtain rfl := only result finished
                exact ⟨_, finished, ih.mpr ⟨report_eq, others⟩⟩

/-- A search that reports gives the report of the search over places. -/
theorem run_yields (tries : Nat) (best : Best) (place : Place) :
    (goal.run tries best place.node).Yields (goal.explore tries best place) :=
  fun _ finished => (run_eq_ok_iff.mp finished).1

/-- A search whose sums fit gives the report of the search over places. -/
theorem run_eq_ok (fits : SumsFit place.candidates goal.target) (targetNonneg : 0 ≤ goal.target)
    (tries : Nat) (best : Best) :
    goal.run tries best place.node = .ok (goal.explore tries best place) := by
  refine run_eq_ok_iff.mpr ⟨rfl, fun visited member => ?_⟩
  have same := visits_candidates tries visited member
  exact ⟨_, step_eq_ok (same ▸ fits) targetNonneg⟩

/-! ## Wastes that fit -/

theorem Node.advance_waste_fits {skipEqual : Bool} {node next : Node}
    (moved : node.advance skipEqual = .ok next) (fits : FitsSigned node.waste) :
    FitsSigned next.waste := by
  unfold Node.advance at moved
  split at moved
  · cases moved
  · obtain ⟨available, _, moved⟩ := bind_eq_ok_iff.mp moved
    split at moved
    · cases moved
      exact fits
    · obtain ⟨value, _, moved⟩ := bind_eq_ok_iff.mp moved
      obtain ⟨candidateWaste, _, moved⟩ := bind_eq_ok_iff.mp moved
      obtain ⟨waste, added, moved⟩ := bind_eq_ok_iff.mp moved
      cases moved
      exact (addSigned_eq_ok_iff.mp added).2 ▸ (addSigned_eq_ok_iff.mp added).1

theorem Node.retreatFrom_waste_fits {value waste available : Int} {decided : List Decision}
    {undecided : List Candidate} {next : Node}
    (moved : Node.retreatFrom value waste decided undecided available = .ok (some next)) :
    FitsSigned next.waste := by
  induction decided generalizing undecided available with
  | nil => cases moved
  | cons decision earlier ih =>
      obtain ⟨candidate, taken⟩ := decision
      cases taken with
      | false =>
          obtain ⟨restored, _, moved⟩ := bind_eq_ok_iff.mp moved
          exact ih moved
      | true =>
          obtain ⟨remaining, _, moved⟩ := bind_eq_ok_iff.mp moved
          obtain ⟨candidateWaste, _, moved⟩ := bind_eq_ok_iff.mp moved
          obtain ⟨remainingWaste, taken, moved⟩ := bind_eq_ok_iff.mp moved
          cases moved
          exact (subSigned_eq_ok_iff.mp taken).2 ▸ (subSigned_eq_ok_iff.mp taken).1

/-- A step that does not fail leads to a waste that fits. -/
theorem step_waste_fits {node next : Node} (stepped : goal.step best node = .ok (better, some next))
    (fits : FitsSigned node.waste) : FitsSigned next.waste := by
  obtain ⟨verdict, _, stepped⟩ := bind_eq_ok_iff.mp stepped
  cases verdict with
  | below =>
      obtain ⟨other, moved, stepped⟩ := bind_eq_ok_iff.mp stepped
      cases stepped
      exact Node.advance_waste_fits moved fits
  | dead =>
      obtain ⟨other, moved, stepped⟩ := bind_eq_ok_iff.mp stepped
      cases stepped
      exact Node.retreatFrom_waste_fits moved
  | hit waste =>
      obtain ⟨other, moved, stepped⟩ := bind_eq_ok_iff.mp stepped
      cases stepped
      exact Node.retreatFrom_waste_fits moved

/-- The waste of a hit fits. -/
theorem judge_hit_fits {node : Node} {leastWaste waste : Int}
    (judged : goal.judge leastWaste node = .ok (.hit waste)) : FitsSigned waste := by
  obtain ⟨reachable, _, judged⟩ := bind_eq_ok_iff.mp judged
  split at judged
  · cases judged
  split at judged
  · obtain ⟨excess, _, judged⟩ := bind_eq_ok_iff.mp judged
    obtain ⟨sum, added, judged⟩ := bind_eq_ok_iff.mp judged
    cases judged
    exact (addSigned_eq_ok_iff.mp added).2 ▸ (addSigned_eq_ok_iff.mp added).1
  · cases judged

/-- In a search that reports, the waste at every visit fits. -/
theorem visits_waste_fit {tries : Nat} {report : Report}
    (ran : goal.run tries best place.node = .ok report) (fits : FitsSigned place.node.waste) :
    ∀ visited ∈ goal.visits tries best place, FitsSigned visited.2.node.waste := by
  obtain ⟨_, finished⟩ := run_eq_ok_iff.mp ran
  refine visits_keep (fun _ other => FitsSigned other.node.waste) ?_ fits
  intro visited member here better next moved
  obtain ⟨result, stepped⟩ := finished visited member
  obtain rfl := step_yields result stepped
  rw [moved] at stepped
  exact step_waste_fits stepped here

/-- In a search that reports, the waste of every hit fits. -/
theorem visits_hit_fits {tries : Nat} {report : Report}
    (ran : goal.run tries best place.node = .ok report) :
    ∀ visited ∈ goal.visits tries best place, ∀ waste,
      goal.verdict visited.1.waste visited.2 = .hit waste → FitsSigned waste := by
  intro visited member waste hit
  obtain ⟨result, stepped⟩ := (run_eq_ok_iff.mp ran).2 visited member
  obtain ⟨verdict, judged, _⟩ := bind_eq_ok_iff.mp stepped
  obtain rfl := judge_yields visited.1.waste verdict judged
  exact judge_hit_fits (hit ▸ judged)

/-! ## Exhausted searches -/

/-- An exhausted search has visited a place. -/
theorem exists_succ_of_exhausted {tries : Nat}
    (exhausted : (goal.explore tries best place).exhausted = true) :
    ∃ fewer, tries = fewer + 1 := by
  cases tries with
  | zero => cases exhausted
  | succ fewer => exact ⟨fewer, rfl⟩

/-- An exhausted search stays the same if it may visit more places. -/
theorem explore_of_exhausted {tries more : Nat} (le : tries ≤ more)
    (exhausted : (goal.explore tries best place).exhausted = true) :
    goal.explore more best place = goal.explore tries best place ∧
      goal.visits more best place = goal.visits tries best place := by
  induction tries generalizing best place more with
  | zero => cases exhausted
  | succ tries ih =>
      obtain ⟨more, rfl⟩ := Nat.exists_eq_succ_of_ne_zero (by omega : more ≠ 0)
      cases visited : goal.visit best place with
      | mk better next =>
          cases next with
          | none => simp only [explore_of_last visited, visits_of_last visited, and_self]
          | some next =>
              rw [explore_of_next visited] at exhausted
              obtain ⟨explore_eq, visits_eq⟩ := ih (Nat.le_of_succ_le_succ le) exhausted
              simp only [explore_of_next visited, visits_of_next visited, explore_eq, visits_eq,
                and_self]

/-- So does a search over nodes. -/
theorem run_of_exhausted {tries more : Nat} {report : Report} (le : tries ≤ more)
    (ran : goal.run tries best place.node = .ok report) (exhausted : report.exhausted = true) :
    goal.run more best place.node = .ok report := by
  obtain ⟨rfl, finished⟩ := run_eq_ok_iff.mp ran
  obtain ⟨explore_eq, visits_eq⟩ := explore_of_exhausted le exhausted
  exact run_eq_ok_iff.mpr ⟨explore_eq.symm, visits_eq ▸ finished⟩

/-! ## Nodes that a search visits -/

/-- The nodes that a search visits, as far as no step fails.  It goes on after
each of them to where the search does. -/
def Goal.trace (goal : Goal) : Nat → Best → Node → List Node
  | 0, _, _ => []
  | tries + 1, best, node =>
      node ::
        match goal.step best node with
        | .ok (better, some next) => trace goal tries better next
        | _ => []

/-- They are nodes at the places of its visits, in that order. -/
theorem trace_sublist (tries : Nat) :
    (goal.trace tries best place.node).Sublist
      ((goal.visits tries best place).map fun visited => visited.2.node) := by
  induction tries generalizing best place with
  | zero => exact List.Sublist.refl _
  | succ tries ih =>
      rw [Goal.trace]
      cases stepped : goal.step best place.node with
      | error failure => simp [Goal.visits]
      | ok result =>
          obtain rfl := step_yields result stepped
          cases visited : goal.visit best place with
          | mk better next =>
              cases next with
              | none => simp [visits_of_last visited]
              | some next =>
                  rw [visits_of_next visited, List.map_cons]
                  exact ih.cons_cons _

/-- Each of them has the exact sums of its decisions, about the same candidates. -/
theorem exists_place_of_trace {tries : Nat} {node : Node}
    (member : node ∈ goal.trace tries best place.node) :
    ∃ other : Place, other.node = node ∧ other.candidates = place.candidates := by
  obtain ⟨visited, visitedMember, rfl⟩ := List.mem_map.mp ((trace_sublist tries).subset member)
  exact ⟨visited.2, rfl, visits_candidates tries visited visitedMember⟩

end Visits

end CoinSelection.BranchAndBound
