import CoinSelection.Proofs.BranchAndBound.Visits
import CoinSelection.Proofs.Rates

/-!
# The sign of waste

Both fees of an input come from its size, and a fee does not fall as the rate
rises, in spite of rounding and of the one satoshi that it costs at least.  At
one pair of rates no waste is therefore positive while another is negative, and
the waste of the first candidate tells for all whether a search can only waste
more by selecting more.
-/

namespace CoinSelection.BranchAndBound

open Candidate Checked Outcome

/-! ## Below a node -/

/-- Decisions that follow others select whatever these select. -/
theorem chosen_sublist_of_suffix {decided later : List Decision} (below : decided <:+ later) :
    (chosen decided).Sublist (chosen later) := by
  obtain ⟨added, rfl⟩ := below
  rw [chosen_append]
  exact List.sublist_append_left _ _

/-- Where no waste is negative, no node of a search wastes less than one that it
is below. -/
theorem trace_waste_le {goal : Goal} {tries : Nat} {best : Best} {place : Place} {node next : Node}
    (nonneg : ∀ candidate ∈ place.candidates, 0 ≤ candidate.exactWaste)
    (member : node ∈ goal.trace tries best place.node)
    (nextMember : next ∈ goal.trace tries best place.node)
    (below : node.decided <:+ next.decided) : node.waste ≤ next.waste := by
  obtain ⟨higher, rfl, _⟩ := exists_place_of_trace member
  obtain ⟨lower, rfl, all⟩ := exists_place_of_trace nextMember
  have selected := lower.chosen_sublist
  rw [all] at selected
  exact totalWaste_le (fun candidate member => nonneg candidate (selected.subset member))
    (chosen_sublist_of_suffix below).subperm

/-! ## Candidates at two rates -/

section Rates

variable {effective longTerm : FeeCalculator} {candidates : List Candidate}

/-- Take any candidates that two rates price.  As signed words their fees are
still the same, and the waste of each is computed and is what its fee exceeds
its long-term fee by.  If one has a positive waste, then no other has a negative
one.  So if the first in the order of a search has a positive waste, then
whatever extends a selection among them wastes no less than it, and in every
search among them the running waste at a node is no less than at any node that
it is below. -/
theorem waste_coherent (priced : ∀ candidate ∈ candidates, PricedAt effective longTerm candidate) :
    (∀ candidate ∈ candidates,
      reinterpret candidate.fee = candidate.fee ∧
        reinterpret candidate.longTermFee = candidate.longTermFee ∧
          candidate.waste = .ok (candidate.fee - candidate.longTermFee)) ∧
      (∀ first ∈ candidates, ∀ second ∈ candidates, ∀ firstWaste secondWaste,
        first.waste = .ok firstWaste → second.waste = .ok secondWaste →
          0 < firstWaste → 0 ≤ secondWaste) ∧
      ∃ first, firstWaste (largestFirst candidates) = .ok first ∧
        (0 < first →
          (∀ selected extended : List Candidate, selected.Subperm extended →
            extended ⊆ candidates → totalWaste selected ≤ totalWaste extended) ∧
          ∀ (goal : Goal) (tries : Nat),
            let nodes := goal.trace tries {} (.root (largestFirst candidates) (worth candidates))
            ∀ node ∈ nodes, ∀ next ∈ nodes,
              node.decided <:+ next.decided → node.waste ≤ next.waste) := by
  refine ⟨?_, ?_, ?_⟩
  · intro candidate member
    have fees_fit := (priced candidate member).fees_fit
    exact ⟨reinterpret_of_le fees_fit.1, reinterpret_of_le fees_fit.2,
      (priced candidate member).waste_eq_ok⟩
  · intro first firstMember second secondMember firstWaste secondWaste first_eq second_eq positive
    rw [(waste_eq_ok_iff.mp first_eq).2] at positive
    rw [(waste_eq_ok_iff.mp second_eq).2]
    exact (priced first firstMember).exactWaste_nonneg positive (priced second secondMember)
  · have perm := largestFirst_perm candidates
    have ordered : ∀ candidate ∈ largestFirst candidates,
        PricedAt effective longTerm candidate :=
      fun candidate member => priced candidate (perm.subset member)
    obtain ⟨first, first_eq⟩ := exists_firstWaste fun candidate member =>
      ⟨_, (ordered candidate member).waste_eq_ok⟩
    refine ⟨first, first_eq, fun positive => ?_⟩
    have nonneg := exactWaste_nonneg_of_first ordered first_eq positive
    constructor
    · intro selected extended subperm part
      apply totalWaste_le _ subperm
      intro candidate member
      exact nonneg candidate (perm.mem_iff.mpr (part member))
    · rw [← Place.node_start_largestFirst]
      intro goal tries nodes node member next nextMember below
      refine trace_waste_le ?_ member nextMember below
      exact nonneg

/-- An output that takes 149 virtual bytes to spend, and one that takes 41. -/
def heavyAndLight : List Utxo :=
  [{ outpoint := ⟨⟨Vector.replicate 32 0⟩, 0⟩, amount := 1000, satisfactionWeight := 436 },
    { outpoint := ⟨⟨Vector.replicate 32 0⟩, 1⟩, amount := 500 }]

/-- At these rates only the heavy one costs more than one satoshi. -/
def faintFees : Fees :=
  { effective := ⟨25⟩, longTerm := ⟨1⟩ }

/-- The heavy output comes first and has a positive waste.  The light one has
none, since each of its fees is the least there is. -/
theorem waste_coherent_heavyAndLight :
    (∀ candidate ∈ faintFees.candidates 0 heavyAndLight,
      PricedAt faintFees.effective faintFees.longTerm candidate) ∧
      firstWaste (largestFirst (faintFees.candidates 0 heavyAndLight)) = .ok 2 ∧
      (∀ light ∈ faintFees.candidates 0 heavyAndLight, ∀ waste,
        light.waste = .ok waste → 0 ≤ waste) ∧
      ∀ selected extended : List Candidate, selected.Subperm extended →
        extended ⊆ faintFees.candidates 0 heavyAndLight →
          totalWaste selected ≤ totalWaste extended := by
  have economic : economicCandidates faintFees 0 heavyAndLight =
      .ok (faintFees.candidates 0 heavyAndLight) := by
    decide +kernel
  have prices := (Fees.economicCandidates_eq_ok_iff.mp economic).1
  have ordered : largestFirst (faintFees.candidates 0 heavyAndLight) =
      faintFees.candidates 0 heavyAndLight :=
    largestFirst_of_sorted (by decide +kernel)
  have computed : firstWaste (largestFirst (faintFees.candidates 0 heavyAndLight)) = .ok 2 := by
    rw [ordered]
    decide +kernel
  have heavy : faintFees.candidate heavyAndLight[0] 0 ∈ faintFees.candidates 0 heavyAndLight := by
    decide +kernel
  have priced : ∀ candidate ∈ faintFees.candidates 0 heavyAndLight,
      PricedAt faintFees.effective faintFees.longTerm candidate :=
    fun _ member => Fees.pricedAt prices member
  obtain ⟨_, signs, first, first_eq, grows⟩ := waste_coherent priced
  obtain rfl : (2 : Int) = first := Except.ok.inj (computed.symm.trans first_eq)
  refine ⟨priced, computed, fun light member waste waste_eq => ?_, (grows (by decide)).1⟩
  exact signs _ heavy light member 2 waste (by decide +kernel) waste_eq (by decide)

end Rates

end CoinSelection.BranchAndBound
