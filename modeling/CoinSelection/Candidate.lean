import CoinSelection.Fee

/-!
# Candidates

A candidate is an output with its price: the fee for spending it now, the fee
for spending it in the long run, and what is left of its amount after the first
of these, its effective value.
-/

namespace CoinSelection

/-- An output with its price. -/
structure Candidate where
  utxo : Utxo
  fee : Nat
  longTermFee : Nat
  effectiveValue : Int
  /-- The place of the output among those that may be spent. -/
  position : Nat := 0
  deriving DecidableEq

namespace Candidate

/-- Price an output. -/
def price (effective longTerm : FeeCalculator) (utxo : Utxo) : Outcome Candidate := do
  let fee ← effective.inputFee utxo
  let longTermFee ← longTerm.inputFee utxo
  pure
    { utxo
      fee
      longTermFee
      effectiveValue := Checked.clampSigned utxo.amount.toNat - Checked.clampSigned fee }

/-- The amount of the output. -/
def amount (candidate : Candidate) : Nat :=
  candidate.utxo.amount.toNat

/-- What spending the output now costs more than in the long run. -/
def waste (candidate : Candidate) : Outcome Int :=
  Checked.subSigned (Checked.reinterpret candidate.fee) (Checked.reinterpret candidate.longTermFee)

/-! ## The order of a search -/

/-- Whether a candidate comes no later than another: the larger effective value
first, and the lower outpoint first among equals. -/
def precedes (first second : Candidate) : Bool :=
  second.effectiveValue < first.effectiveValue ||
    (first.effectiveValue == second.effectiveValue &&
      (compare first.utxo.outpoint second.utxo.outpoint).isLE)

/-- Candidates in the order in which they are searched. -/
def largestFirst (candidates : List Candidate) : List Candidate :=
  candidates.mergeSort precedes

/-! ## What a list of candidates is worth -/

/-- The error for a target that all candidates together do not reach. -/
def insufficient (candidates : List Candidate) (target : Nat) : Error :=
  .insufficientFunds
    (Checked.saturatingAdd target (Checked.saturatingSum (candidates.map fee)))
    (Checked.saturatingSum (candidates.map amount))

end Candidate

end CoinSelection
