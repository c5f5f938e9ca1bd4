import CoinSelection.Candidate
import CoinSelection.Knapsack.Subset

/-!
# Knapsack selection

The knapsack selection always finds a selection if there is one, and prefers,
in this order: one candidate that meets the target, the candidates below the
target and its change if they meet the target together, the smallest larger
candidate if they do not reach it, and otherwise a random approximation, unless
the smallest larger candidate does better.
-/

namespace CoinSelection.Knapsack

/-! ## Smaller and larger candidates -/

/-- The candidates worth less than a bound, latest first, with their value, and
the smallest of the others. -/
structure Division where
  lower : List Candidate := []
  lowerTotal : Int := 0
  larger : Option Candidate := none

/-- Whether a candidate is smaller than the smallest larger one. -/
def undercuts (candidate : Candidate) : Option Candidate → Bool
  | none => true
  | some larger =>
      candidate.effectiveValue < larger.effectiveValue ||
        (candidate.effectiveValue == larger.effectiveValue &&
          compare candidate.utxo.outpoint larger.utxo.outpoint == .lt)

/-- Divide candidates at a bound, or find the first that meets the target. -/
def divide (target bound : Int) : List Candidate → Division → Outcome (Candidate ⊕ Division)
  | [], division => .ok (.inr division)
  | candidate :: rest, division => do
      if candidate.effectiveValue = target then
        pure (.inl candidate)
      else if candidate.effectiveValue < bound then
        let lowerTotal ← Checked.addSigned division.lowerTotal candidate.effectiveValue
        divide target bound rest
          { division with lower := candidate :: division.lower, lowerTotal }
      else if undercuts candidate division.larger then
        divide target bound rest { division with larger := some candidate }
      else
        divide target bound rest division

/-! ## The selection -/

/-- The candidates that a mask takes. -/
def masked (candidates : List Candidate) (mask : List Bool) : List Candidate :=
  ((candidates.zip mask).filter fun entry => entry.2).map fun entry => entry.1

/-- Select among smaller candidates that exceed the target together, or take
the smallest larger one. -/
def selectLower (source : RandomSource) (target bound : Int) (lower : List Candidate)
    (lowerTotal : Int) (larger : Option Candidate) : Draw (List Candidate) := do
  let values := lower.map Candidate.effectiveValue
  let closest ← approximate source values lowerTotal target
  let best ←
    if closest.value ≠ target ∧ bound ≤ lowerTotal then
      approximate source values lowerTotal bound
    else
      pure closest
  match larger with
  | some candidate =>
      if (best.value ≠ target ∧ best.value < bound) ∨ candidate.effectiveValue ≤ best.value then
        pure [candidate]
      else
        pure (masked lower best.mask)
  | none => pure (masked lower best.mask)

/-- Candidates that reach the target, with a change of at least `minimumChange`
where the target is not met exactly and that can be had. -/
def select (source : RandomSource) (minimumChange : Nat) (candidates : List Candidate)
    (target : Nat) : Draw (List Candidate) := do
  match Checked.toSigned? target with
  | none => Draw.ofOutcome (refuse (Candidate.insufficient candidates target))
  | some signedTarget =>
      let bound :=
        Checked.saturatingAddSigned signedTarget (Checked.clampSigned minimumChange)
      let ordered := Candidate.largestFirst candidates
      match ← Draw.ofOutcome (divide signedTarget bound ordered {}) with
      | .inl candidate => pure [candidate]
      | .inr division =>
          let lower := division.lower.reverse
          if division.lowerTotal = signedTarget then
            pure lower
          else if division.lowerTotal < signedTarget then
            match division.larger with
            | some candidate => pure [candidate]
            | none => Draw.ofOutcome (refuse (Candidate.insufficient candidates target))
          else
            selectLower source signedTarget bound lower division.lowerTotal division.larger

end CoinSelection.Knapsack
