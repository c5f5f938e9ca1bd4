import CoinSelection.Candidate

/-!
# Nodes of the search

The search decides candidate after candidate whether it is selected.  A node is
a list of decisions, latest first, with the candidates still to be decided and
three running sums: the effective value selected, the effective value still
available, and the waste selected.

From a node the search either advances to the next candidate or retreats to the
latest candidate that is still selected, and leaves that one out instead.
-/

namespace CoinSelection.BranchAndBound

/-- A candidate, and whether it is selected. -/
abbrev Decision : Type :=
  Candidate × Bool

/-- A point of the search. -/
structure Node where
  decided : List Decision
  undecided : List Candidate
  value : Int
  available : Int
  waste : Int

/-- The candidates that a list of decisions, latest first, selects. -/
def chosen (decided : List Decision) : List Candidate :=
  (decided.reverse.filter fun decision => decision.2).map fun decision => decision.1

namespace Node

/-- No candidate is decided yet. -/
def root (candidates : List Candidate) (available : Int) : Node :=
  { decided := [], undecided := candidates, value := 0, available, waste := 0 }

/-! ## Advancing -/

/-- Whether the latest decision left out a candidate that is worth the same and
costs the same.  Selecting its equal instead leads to nothing new. -/
def repeatsOmission (decided : List Decision) (candidate : Candidate) : Bool :=
  match decided with
  | (previous, false) :: _ =>
      previous.effectiveValue == candidate.effectiveValue && previous.fee == candidate.fee
  | _ => false

/-- Decide the next candidate: select it, unless `skipEqual` asks to leave it
out because its equal was left out. -/
def advance (skipEqual : Bool) (node : Node) : Outcome Node :=
  match node.undecided with
  | [] => abort (.missingCandidate node.decided.length)
  | candidate :: rest => do
      let available ← Checked.subSigned node.available candidate.effectiveValue
      if skipEqual && repeatsOmission node.decided candidate then
        pure
          { node with
            decided := (candidate, false) :: node.decided
            undecided := rest
            available }
      else
        let value ← Checked.addSigned node.value candidate.effectiveValue
        let candidateWaste ← candidate.waste
        let waste ← Checked.addSigned node.waste candidateWaste
        pure
          { decided := (candidate, true) :: node.decided
            undecided := rest
            value
            available
            waste }

/-! ## Retreating -/

/-- Take back the decisions that left a candidate out, up to the latest that
selected one, and turn that one.  There is nothing to turn if no candidate is
selected. -/
def retreatFrom (value waste : Int) :
    List Decision → List Candidate → Int → Outcome (Option Node)
  | [], _, _ => .ok none
  | (candidate, false) :: earlier, undecided, available => do
      let restored ← Checked.addSigned available candidate.effectiveValue
      retreatFrom value waste earlier (candidate :: undecided) restored
  | (candidate, true) :: earlier, undecided, available => do
      let remaining ← Checked.subSigned value candidate.effectiveValue
      let candidateWaste ← candidate.waste
      let remainingWaste ← Checked.subSigned waste candidateWaste
      pure (some
        { decided := (candidate, false) :: earlier
          undecided
          value := remaining
          available
          waste := remainingWaste })

/-- The next node of the search that does not extend this one. -/
def retreat (node : Node) : Outcome (Option Node) :=
  retreatFrom node.value node.waste node.decided node.undecided node.available

end Node

/-! ## Elementary laws -/

@[simp]
theorem chosen_selected (candidate : Candidate) (decided : List Decision) :
    chosen ((candidate, true) :: decided) = chosen decided ++ [candidate] := by
  simp [chosen]

@[simp]
theorem chosen_omitted (candidate : Candidate) (decided : List Decision) :
    chosen ((candidate, false) :: decided) = chosen decided := by
  simp [chosen]

end CoinSelection.BranchAndBound
