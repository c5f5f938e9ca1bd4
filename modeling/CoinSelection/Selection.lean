import CoinSelection.BranchAndBound.Search
import CoinSelection.Knapsack
import CoinSelection.Options

/-!
# Selections

A selection lists the outputs to spend, in the order in which they were
offered, and what they add up to.  A strategy says how one is found: by
branch and bound with another strategy to fall back on, or by knapsack.
-/

namespace CoinSelection

/-! ## Selections -/

/-- How a selection was found. -/
inductive Algorithm
  | branchAndBound
  | knapsack
  | nothing
  deriving DecidableEq, Repr

/-- The outputs to spend, and their totals. -/
structure Selection where
  selected : List Utxo := []
  /-- The sum of the amounts. -/
  selectedValue : Nat := 0
  /-- What the sum of the amounts exceeds the target by. -/
  excessValue : Nat := 0
  /-- The sum of the fees for spending the outputs. -/
  inputFees : Nat := 0
  algorithm : Algorithm := .nothing
  deriving DecidableEq

namespace Selection

/-- Nothing is spent. -/
def empty : Selection := {}

/-- Candidates in the order in which they were offered. -/
def offeredOrder (candidates : List Candidate) : List Candidate :=
  candidates.mergeSort fun first second => first.position ≤ second.position

/-- The selection of candidates for a target. -/
def ofCandidates (candidates : List Candidate) (target : Nat) (algorithm : Algorithm) :
    Outcome Selection := do
  let ordered := offeredOrder candidates
  let selectedValue ← Checked.sum (ordered.map Candidate.amount)
  let inputFees ← Checked.sum (ordered.map Candidate.fee)
  pure
    { selected := ordered.map Candidate.utxo
      selectedValue
      excessValue := selectedValue - target
      inputFees
      algorithm }

end Selection

/-! ## Strategies -/

/-- How a selection is found. -/
inductive Strategy
  | knapsack (minimumChange : Nat := defaultMinimumChange)
  | branchAndBound (costOfChange : Nat) (fallback : Strategy)
  deriving DecidableEq, Repr

namespace Strategy

/-- Whether a failure leaves the search to the next strategy.  Only a refusal
does. -/
def fallsBack : Failure → Bool
  | .error _ => true
  | .abort _ => false

/-- Find a selection whose effective value reaches a target. -/
def select (source : RandomSource) (candidates : List Candidate) (target : Nat) :
    Strategy → Draw Selection
  | .knapsack minimumChange => do
      let chosen ← Knapsack.select source minimumChange candidates target
      Draw.ofOutcome (Selection.ofCandidates chosen target .knapsack)
  | .branchAndBound costOfChange fallback =>
      match BranchAndBound.select costOfChange candidates target with
      | .ok chosen => Draw.ofOutcome (Selection.ofCandidates chosen target .branchAndBound)
      | .error failure =>
          if fallsBack failure then fallback.select source candidates target
          else Draw.ofOutcome (.error failure)

end Strategy

end CoinSelection
