import CoinSelection.Proofs.BranchAndBound.Selection
import CoinSelection.Proofs.Renumbering

/-!
# Branch and bound does not look at positions

Every step of the search commutes with renumbering the candidates, so the whole
search does.  Where the outpoints are distinct the order of the candidates makes
no difference either.
-/

namespace CoinSelection.BranchAndBound

open Candidate Checked Outcome

variable {numbering : Nat → Nat}

/-! ## Nodes -/

/-- The decision on the renumbered candidate. -/
def renumberDecision (numbering : Nat → Nat) (decision : Decision) : Decision :=
  (decision.1.renumber numbering, decision.2)

/-- Renumber all candidates of a node. -/
def Node.renumber (numbering : Nat → Nat) (node : Node) : Node :=
  { node with
    decided := node.decided.map (renumberDecision numbering)
    undecided := node.undecided.map (Candidate.renumber numbering) }

theorem chosen_renumber (decided : List Decision) :
    chosen (decided.map (renumberDecision numbering)) =
      (chosen decided).map (Candidate.renumber numbering) := by
  simp [chosen, List.filter_map, Function.comp_def, renumberDecision, ← List.map_reverse]

namespace Node

theorem repeatsOmission_renumber (decided : List Decision) (candidate : Candidate) :
    repeatsOmission (decided.map (renumberDecision numbering)) (candidate.renumber numbering) =
      repeatsOmission decided candidate := by
  cases decided with
  | nil => rfl
  | cons decision earlier =>
      obtain ⟨previous, taken⟩ := decision
      cases taken <;> rfl

theorem advance_renumber (skipEqual : Bool) (node : Node) :
    (node.renumber numbering).advance skipEqual =
      (node.advance skipEqual).map (Node.renumber numbering) := by
  obtain ⟨decided, undecided, value, available, waste⟩ := node
  cases undecided with
  | nil => simp [advance, Node.renumber, abort, Except.map]
  | cons candidate rest =>
      simp only [advance, Node.renumber, List.map_cons, repeatsOmission_renumber,
        renumber_effectiveValue, renumber_waste, exceptMap_bind]
      congr 1
      funext remaining
      split
      · rfl
      · simp only [exceptMap_bind]
        rfl

theorem retreatFrom_renumber (value waste available : Int) (decided : List Decision)
    (undecided : List Candidate) :
    retreatFrom value waste (decided.map (renumberDecision numbering))
        (undecided.map (Candidate.renumber numbering)) available =
      (retreatFrom value waste decided undecided available).map
        (Option.map (Node.renumber numbering)) := by
  induction decided generalizing undecided available with
  | nil => rfl
  | cons decision earlier ih =>
      obtain ⟨candidate, taken⟩ := decision
      cases taken with
      | false =>
          simp only [List.map_cons, renumberDecision, retreatFrom, renumber_effectiveValue,
            exceptMap_bind]
          congr 1
          funext restored
          exact ih restored (candidate :: undecided)
      | true =>
          simp only [List.map_cons, renumberDecision, retreatFrom, renumber_effectiveValue,
            renumber_waste, exceptMap_bind]
          rfl

theorem retreat_renumber (node : Node) :
    (node.renumber numbering).retreat =
      node.retreat.map (Option.map (Node.renumber numbering)) :=
  retreatFrom_renumber node.value node.waste node.available node.decided node.undecided

end Node

/-! ## The search -/

/-- Renumber the best selection. -/
def Best.renumber (numbering : Nat → Nat) (best : Best) : Best :=
  { best with decisions := best.decisions.map (List.map (renumberDecision numbering)) }

/-- Renumber the selection that a report holds. -/
def Report.renumber (numbering : Nat → Nat) (report : Report) : Report :=
  { report with best := report.best.renumber numbering }

theorem Best.record_renumber (best : Best) (decisions : List Decision) (waste : Int) :
    (best.renumber numbering).record (decisions.map (renumberDecision numbering)) waste =
      (best.record decisions waste).renumber numbering := by
  unfold Best.record
  change (if waste ≤ best.waste then _ else _) = _
  split <;> rfl

/-- A step of the search does not look at positions. -/
theorem Goal.step_renumber (goal : Goal) (best : Best) (node : Node) :
    goal.step (best.renumber numbering) (node.renumber numbering) =
      (goal.step best node).map
        (Prod.map (Best.renumber numbering) (Option.map (Node.renumber numbering))) := by
  have judge_eq : goal.judge (best.renumber numbering).waste (node.renumber numbering) =
      goal.judge best.waste node := rfl
  rw [Goal.step, judge_eq, Goal.step, exceptMap_bind]
  congr 1
  funext verdict
  cases verdict with
  | below =>
      simp only [Node.advance_renumber, bind_exceptMap, exceptMap_bind]
      rfl
  | dead =>
      simp only [Node.retreat_renumber, bind_exceptMap, exceptMap_bind]
      rfl
  | hit waste =>
      have record_eq : (best.renumber numbering).record (node.renumber numbering).decided waste =
          (best.record node.decided waste).renumber numbering :=
        Best.record_renumber best node.decided waste
      simp only [record_eq, Node.retreat_renumber, bind_exceptMap, exceptMap_bind]
      rfl

/-- A whole search does not look at positions. -/
theorem Goal.run_renumber (goal : Goal) (tries : Nat) (best : Best) (node : Node) :
    goal.run tries (best.renumber numbering) (node.renumber numbering) =
      (goal.run tries best node).map (Report.renumber numbering) := by
  induction tries generalizing best node with
  | zero => rfl
  | succ tries ih =>
      rw [Goal.run_succ, Goal.run_succ, Goal.step_renumber, bind_exceptMap, exceptMap_bind]
      congr 1
      funext ⟨better, next⟩
      cases next with
      | none => rfl
      | some next => exact ih better next

theorem Report.selection_renumber (report : Report) :
    (report.renumber numbering).selection =
      report.selection.map (List.map (Candidate.renumber numbering)) := by
  obtain ⟨⟨decisions, waste⟩, exhausted⟩ := report
  cases decisions with
  | none => rfl
  | some decisions => exact congrArg Except.ok (chosen_renumber decisions)

theorem forM_requireWorth_renumber (candidates : List Candidate) :
    (candidates.map (Candidate.renumber numbering)).forM requireWorth =
      candidates.forM requireWorth := by
  simp only [List.forM_eq_forM]
  induction candidates with
  | nil => rfl
  | cons candidate rest ih =>
      rw [List.map_cons, List.forM_cons, List.forM_cons, ih]
      rfl

theorem firstWaste_renumber (candidates : List Candidate) :
    firstWaste (candidates.map (Candidate.renumber numbering)) = firstWaste candidates := by
  cases candidates <;> rfl

theorem search_renumber (pruning : Pruning) (tries costOfChange : Nat) (candidates : List Candidate)
    (target : Nat) :
    search pruning tries costOfChange (candidates.map (Candidate.renumber numbering)) target =
      (search pruning tries costOfChange candidates target).map (Report.renumber numbering) := by
  simp only [search, forM_requireWorth_renumber, map_effectiveValue_renumber, exceptMap_bind]
  congr 1
  funext worthy
  congr 1
  funext available
  split
  · rw [insufficient_renumber]
    rfl
  · rename_i signedTarget _
    rw [largestFirst_renumber, firstWaste_renumber, exceptMap_bind]
    congr 1
    funext first
    exact Goal.run_renumber (Goal.above pruning signedTarget costOfChange first) tries {}
      (.root (largestFirst candidates) available)

/-- Branch and bound selects the same candidates under other numbers. -/
theorem select_renumber (costOfChange : Nat) (candidates : List Candidate) (target : Nat) :
    select costOfChange (candidates.map (Candidate.renumber numbering)) target =
      (select costOfChange candidates target).map (List.map (Candidate.renumber numbering)) := by
  rw [select, search_renumber, bind_exceptMap, select, exceptMap_bind]
  congr 1
  funext report
  exact Report.selection_renumber report

/-! ## The order of the candidates -/

/-- Branch and bound selects the same from candidates in another order. -/
theorem select_perm {first second : List Candidate} (positive : Positive first)
    (fits : worth first ≤ greatestSigned)
    (distinct : (first.map fun candidate => candidate.utxo.outpoint).Nodup)
    (perm : first.Perm second) (costOfChange target : Nat) :
    select costOfChange first target = select costOfChange second target := by
  have worth_eq := worth_perm perm
  have secondPositive := positive.subset perm.symm.subset
  rcases lt_or_ge (worth first) target with short | enough
  · rw [select, search_of_lt positive fits short, select,
      search_of_lt secondPositive (worth_eq ▸ fits) (worth_eq ▸ short), insufficient_perm perm]
  · rw [select, search_of_le positive fits enough, select,
      search_of_le secondPositive (worth_eq ▸ fits) (worth_eq ▸ enough),
      largestFirst_eq_of_perm distinct perm]

end CoinSelection.BranchAndBound
