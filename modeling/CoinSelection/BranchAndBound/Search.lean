import CoinSelection.BranchAndBound.Node

/-!
# Branch and bound

Branch and bound looks for a selection that needs no change: its effective
value lies in a window from the target up to the target and the cost of change.
Of those it finds it keeps one that wastes least, where waste is what the
inputs cost more than in the long run, and what the selection exceeds the
target by.

The search visits nodes depth first, larger candidates first and selecting
before omitting, and stops after a bounded number of them.
-/

namespace CoinSelection.BranchAndBound

/-- The nodes that a search may visit. -/
def totalTries : Nat := 100000

/-! ## What a search is looking for -/

/-- The shortcuts of a search that are not needed for finding a selection. -/
structure Pruning where
  /-- Give up on a node that wastes more than the best selection, if the first
  candidate has a positive waste. -/
  waste : Bool := true
  /-- Leave out a candidate whose equal has just been left out. -/
  equals : Bool := true
  deriving DecidableEq

/-- The window of effective values, and the shortcuts that apply. -/
structure Goal where
  target : Int
  limit : Int
  boundsWaste : Bool
  skipsEqual : Bool

/-- The window above a target. -/
def Goal.above (pruning : Pruning) (target : Int) (costOfChange : Nat) (firstWaste : Int) :
    Goal :=
  { target
    limit := Checked.saturatingAddSigned target (Checked.clampSigned costOfChange)
    boundsWaste := pruning.waste && 0 < firstWaste
    skipsEqual := pruning.equals }

/-! ## One node -/

/-- What is to be done at a node. -/
inductive Verdict
  /-- No node below this one can be the answer. -/
  | dead
  /-- The node is in the window, with this waste. -/
  | hit (waste : Int)
  /-- The node is below the window. -/
  | below
  deriving DecidableEq

/-- Judge a node, given the least waste found so far. -/
def Goal.judge (goal : Goal) (leastWaste : Int) (node : Node) : Outcome Verdict := do
  let reachable ← Checked.addSigned node.value node.available
  if reachable < goal.target ∨ goal.limit < node.value ∨
      (goal.boundsWaste ∧ leastWaste < node.waste) then
    pure .dead
  else if goal.target ≤ node.value then
    let excess ← Checked.subSigned node.value goal.target
    let waste ← Checked.addSigned node.waste excess
    pure (.hit waste)
  else
    pure .below

/-! ## The search -/

/-- The best selection found so far, as its decisions, and its waste. -/
structure Best where
  decisions : Option (List Decision) := none
  waste : Int := Checked.greatestSigned

/-- Keep a selection that wastes no more than the best one. -/
def Best.record (best : Best) (decisions : List Decision) (waste : Int) : Best :=
  if waste ≤ best.waste then ⟨some decisions, waste⟩ else best

/-- The selection, if there is one. -/
def Best.selection? (best : Best) : Option (List Candidate) :=
  best.decisions.map chosen

/-- How a search ended. -/
structure Report where
  best : Best
  /-- Every node was visited or given up. -/
  exhausted : Bool

/-- Visit at most `tries` nodes. -/
def Goal.run (goal : Goal) : Nat → Best → Node → Outcome Report
  | 0, best, _ => .ok ⟨best, false⟩
  | tries + 1, best, node => do
      match ← goal.judge best.waste node with
      | .below =>
          let next ← node.advance goal.skipsEqual
          goal.run tries best next
      | .dead =>
          match ← node.retreat with
          | some next => goal.run tries best next
          | none => pure ⟨best, true⟩
      | .hit waste =>
          let better := best.record node.decided waste
          match ← node.retreat with
          | some next => goal.run tries better next
          | none => pure ⟨better, true⟩

/-! ## From candidates to a selection -/

/-- Refuse to search candidates that are not worth spending. -/
def requireWorth (candidate : Candidate) : Outcome Unit :=
  if 0 < candidate.effectiveValue then .ok ()
  else abort (.worthlessCandidate candidate.utxo.outpoint candidate.effectiveValue)

/-- The waste of the first candidate, zero if there is none. -/
def firstWaste : List Candidate → Outcome Int
  | [] => .ok 0
  | candidate :: _ => candidate.waste

/-- Search for the selections of a target, visiting at most `tries` nodes. -/
def search (pruning : Pruning) (tries : Nat) (costOfChange : Nat) (candidates : List Candidate)
    (target : Nat) : Outcome Report := do
  candidates.forM requireWorth
  let available ← Checked.sumSigned (candidates.map Candidate.effectiveValue)
  match (Checked.toSigned? target).filter (· ≤ available) with
  | none => refuse (Candidate.insufficient candidates target)
  | some signedTarget =>
      let ordered := Candidate.largestFirst candidates
      let firstWaste ← firstWaste ordered
      let goal := Goal.above pruning signedTarget costOfChange firstWaste
      goal.run tries {} (.root ordered available)

/-- The selection of a report, or why there is none. -/
def Report.selection (report : Report) : Outcome (List Candidate) :=
  match report.best.selection? with
  | some selection => .ok selection
  | none => refuse (if report.exhausted then .noExactMatch else .triesExceeded)

/-- A selection of least waste that needs no change, larger candidates first. -/
def select (costOfChange : Nat) (candidates : List Candidate) (target : Nat) :
    Outcome (List Candidate) := do
  let report ← search {} totalTries costOfChange candidates target
  report.selection

end CoinSelection.BranchAndBound
