import CoinSelection.Selection

/-!
# Selecting outputs to spend

`select` pays a target from a pool of outputs.  Outputs that the filter does
not accept are ignored, and so are those that cost more to spend than they are
worth.  The target does not include fees: those for the inputs are taken off
their values, and those for the rest of the transaction are added to it.
-/

namespace CoinSelection

/-! ## Pricing -/

/-- The sum of amounts, if it and every amount fit a signed word. -/
def availableValue? (pool : List Utxo) : Option Nat :=
  let total : Nat := (pool.map fun utxo => utxo.amount.toNat).foldr (· + ·) 0
  if (total : Int) ≤ Checked.greatestSigned then some total else none

/-- Price outputs and keep those worth spending.  The first one is at
`position`. -/
def economicCandidates (fees : Fees) : Nat → List Utxo → Outcome (List Candidate)
  | _, [] => .ok []
  | position, utxo :: rest => do
      let candidate ← Candidate.price fees.effective fees.longTerm utxo
      let others ← economicCandidates fees (position + 1) rest
      if 0 < candidate.effectiveValue then pure ({ candidate with position } :: others)
      else pure others

/-- The target with the fees that do not depend on the inputs, if it fits a
signed word. -/
def actualTarget (target notInputFees available : Nat) : Outcome Nat :=
  if ((target + notInputFees : Nat) : Int) ≤ Checked.greatestSigned then
    .ok (target + notInputFees)
  else
    refuse (.insufficientFunds (Checked.saturatingAdd target notInputFees) available)

/-- The strategy that the options ask for. -/
def strategyFor (options : Options) (fees : Fees) : Outcome Strategy :=
  let knapsack := Strategy.knapsack options.minimumChange
  if options.useBranchAndBound then do
    let costOfChange ← fees.costOfChange options
    pure (.branchAndBound costOfChange knapsack)
  else
    .ok knapsack

/-! ## Selecting -/

/-- A selection task: candidates, a target for their effective values, and a
strategy. -/
structure Task where
  candidates : List Candidate
  target : Nat
  strategy : Strategy

/-- What has to be solved to pay a positive target from accepted outputs. -/
def prepare (target : Nat) (accepted : List Utxo) (filter : Filter) (options : Options) :
    Outcome Task := do
  if accepted.isEmpty then
    refuse (.insufficientFunds target 0)
  else
    match availableValue? accepted with
    | none => refuse .totalOverflow
    | some available => do
        let fees := options.fees (options.paysFee filter)
        let notInputFees ← fees.notInputFees options
        let target ← actualTarget target notInputFees available
        let candidates ← economicCandidates fees 0 accepted
        let strategy ← strategyFor options fees
        pure { candidates, target, strategy }

/-- Select outputs of a pool to pay a target. -/
def select (source : RandomSource) (target : Nat) (pool : List Utxo) (filter : Filter)
    (options : Options) : Draw Selection := do
  Draw.ofOutcome options.validate
  let accepted ← Draw.ofOutcome (filter.accepted pool)
  if target = 0 then
    pure .empty
  else
    let task ← Draw.ofOutcome (prepare target accepted filter options)
    let selection ← task.strategy.select source task.candidates task.target
    pure { selection with excessValue := selection.selectedValue - target }

end CoinSelection
