import CoinSelection.Proofs.BranchAndBound.Optimality

/-!
# Selections that extend a hit

The search turns back wherever it is in the window, so it compares its selection
with none that extends it.  An input that is added costs its fee now, it adds
its effective value to the excess, and it saves its long-term fee.  The first
two make up its amount, so a selection that extends a hit and stays in the
window wastes less only because of an input that costs more in the long run than
its amount.  There is none where the long-term rate is not the higher one.
-/

namespace CoinSelection

open Candidate Checked Outcome

/-! ## What an added input wastes -/

namespace Candidate

variable {effective longTerm : FeeCalculator} {candidate : Candidate} {added : List Candidate}

/-- What an input changes about the waste of a selection that it is added to. -/
def addedWaste (candidate : Candidate) : Int :=
  candidate.fee - candidate.longTermFee + candidate.effectiveValue

theorem wasteOver_append (target : Int) (selected added : List Candidate) :
    wasteOver target (selected ++ added) =
      wasteOver target selected + (added.map addedWaste).sum := by
  induction added generalizing selected with
  | nil => simp
  | cons candidate rest ih =>
      have single : wasteOver target (selected ++ [candidate]) =
          wasteOver target selected + candidate.addedWaste := by
        simp only [wasteOver, addedWaste, fees, longTermFees, worth, List.map_append,
          List.map_singleton, List.sum_append, List.sum_singleton]
        omega
      rw [List.append_cons, ih, single, List.map_cons, List.sum_cons, add_assoc]

/-- An added input lessens the waste if it costs more in the long run than its
amount, and only then. -/
theorem PricedAt.addedWaste_neg_iff (priced : PricedAt effective longTerm candidate) :
    candidate.addedWaste < 0 ↔ candidate.amount < candidate.longTermFee := by
  have fees_fit := priced.fees_fit
  have value_eq := priced.effectiveValue_eq
  unfold addedWaste
  simp only [clampSigned] at value_eq
  omega

/-- At a lower long-term rate no input that is worth spending costs more in the
long run than its amount. -/
theorem PricedAt.longTermFee_le_amount (priced : PricedAt effective longTerm candidate)
    (rate_le : longTerm.baseRate ≤ effective.baseRate) (positive : 0 < candidate.effectiveValue) :
    candidate.longTermFee ≤ candidate.amount := by
  have fees_fit := priced.fees_fit
  have value_eq := priced.effectiveValue_eq
  have fee_le := priced.longTermFee_le rate_le
  simp only [clampSigned] at value_eq
  omega

/-- Inputs that lessen a waste together do not all add to it. -/
theorem exists_addedWaste_neg (less : (added.map addedWaste).sum < 0) :
    ∃ candidate ∈ added, candidate.addedWaste < 0 := by
  by_contra none
  push Not at none
  have nonneg : 0 ≤ (added.map addedWaste).sum := List.sum_nonneg (by simpa using none)
  omega

end Candidate

/-! ## Extending a selection -/

namespace BranchAndBound

variable {effective longTerm : FeeCalculator} {candidates selected added : List Candidate}
  {target limit : Int}

/-- Other candidates that can be added to a selection without leaving the
window, and lessen its waste. -/
structure Improves (candidates : List Candidate) (target limit : Int)
    (selected added : List Candidate) : Prop where
  subperm : (selected ++ added).Subperm candidates
  le_limit : worth (selected ++ added) ≤ limit
  less : wasteOver target (selected ++ added) < wasteOver target selected

/-- Among candidates at two rates a selection can be improved exactly if one
candidate that costs more in the long run than its amount can be added. -/
theorem exists_improves_iff
    (priced : ∀ candidate ∈ candidates, PricedAt effective longTerm candidate)
    (positive : Positive candidates) :
    (∃ added, Improves candidates target limit selected added) ↔
      ∃ candidate, (selected ++ [candidate]).Subperm candidates ∧
        worth (selected ++ [candidate]) ≤ limit ∧ candidate.amount < candidate.longTermFee := by
  constructor
  · rintro ⟨added, subperm, le_limit, less⟩
    rw [wasteOver_append] at less
    have together : (added.map addedWaste).sum < 0 := by omega
    obtain ⟨candidate, member, saves⟩ := exists_addedWaste_neg together
    have part : (selected ++ [candidate]).Sublist (selected ++ added) :=
      (List.singleton_sublist.mpr member).append_left selected
    have part_le := (positive.subset subperm.subset).worth_le part.subperm
    have candidateMember : candidate ∈ candidates :=
      subperm.subset (List.mem_append_right selected member)
    exact ⟨candidate, part.subperm.trans subperm, part_le.trans le_limit,
      (priced candidate candidateMember).addedWaste_neg_iff.mp saves⟩
  · rintro ⟨candidate, subperm, le_limit, dear⟩
    have member : candidate ∈ candidates := subperm.subset (by simp)
    have saves := (priced candidate member).addedWaste_neg_iff.mpr dear
    refine ⟨[candidate], subperm, le_limit, ?_⟩
    rw [wasteOver_append, List.map_singleton, List.sum_singleton]
    omega

/-- Take whatever branch and bound selects among candidates at two rates.  It is
in the window, and a selection that extends it within the window wastes less if
a candidate that was left out, and that can be added without leaving the window,
costs more in the long run than its amount.  There is no other such selection,
and none at all if the long-term rate is not the higher one. -/
theorem select_extension {target costOfChange : Nat}
    (priced : ∀ candidate ∈ candidates, PricedAt effective longTerm candidate)
    (finished : select costOfChange candidates target = .ok selected) :
    selected.Subperm candidates ∧ (target : Int) ≤ worth selected ∧
      worth selected ≤ target + costOfChange ∧
      ((∃ added, Improves candidates target (target + costOfChange) selected added) ↔
        ∃ candidate, (selected ++ [candidate]).Subperm candidates ∧
          worth (selected ++ [candidate]) ≤ target + costOfChange ∧
            candidate.amount < candidate.longTermFee) ∧
      (longTerm.baseRate ≤ effective.baseRate →
        ∀ added, ¬ Improves candidates target (target + costOfChange) selected added) := by
  obtain ⟨_, searched, _⟩ := select_eq_ok_iff.mp finished
  obtain ⟨positive, fits⟩ := positive_of_search searched
  obtain ⟨sublist, target_le, le_limit⟩ := select_sound positive fits finished
  refine ⟨sublist.subperm.trans (largestFirst_perm candidates).subperm, target_le, le_limit,
    exists_improves_iff priced positive, fun rate_le added improves => ?_⟩
  obtain ⟨candidate, subperm, _, dear⟩ := (exists_improves_iff priced positive).mp ⟨added, improves⟩
  have member : candidate ∈ candidates := subperm.subset (by simp)
  have le_amount :=
    (priced candidate member).longTermFee_le_amount rate_le (positive candidate member)
  omega

/-- At half the rate in the long run no extension of a selection wastes less. -/
theorem select_extension_twoEquals :
    select 310 (halvingFees.candidates 0 twoEquals) 300 =
        .ok [halvingFees.candidate twoEquals[0] 0] ∧
      ∀ added, ¬ Improves (halvingFees.candidates 0 twoEquals) 300 (300 + 310)
        [halvingFees.candidate twoEquals[0] 0] added := by
  have priced : economicCandidates halvingFees 0 twoEquals =
      .ok (halvingFees.candidates 0 twoEquals) := by
    decide +kernel
  have ordered : largestFirst (halvingFees.candidates 0 twoEquals) =
      halvingFees.candidates 0 twoEquals :=
    largestFirst_of_sorted (by decide +kernel)
  have finished : select 310 (halvingFees.candidates 0 twoEquals) 300 =
      .ok [halvingFees.candidate twoEquals[0] 0] := by
    rw [select, search, ordered]
    decide +kernel
  have prices := (Fees.economicCandidates_eq_ok_iff.mp priced).1
  exact ⟨finished, (select_extension (fun _ member => Fees.pricedAt prices member)
    finished).2.2.2.2 (by decide)⟩

/-- Two outputs of little value. -/
def smallOutputs : List Utxo :=
  [{ outpoint := ⟨⟨Vector.replicate 32 0⟩, 0⟩, amount := 161 },
    { outpoint := ⟨⟨Vector.replicate 32 0⟩, 1⟩, amount := 141 }]

/-- They cost ten times as much in the long run as now. -/
def risingFees : Fees :=
  { effective := ⟨1000⟩, longTerm := ⟨10000⟩ }

/-- The search stops at the smaller of the two, which meets the target.  With the
other one the selection would still be in the window and waste less. -/
theorem select_improvable_smallOutputs :
    economicCandidates risingFees 0 smallOutputs =
        .ok (risingFees.candidates 0 smallOutputs) ∧
      select 200 (risingFees.candidates 0 smallOutputs) 100 =
        .ok [risingFees.candidate smallOutputs[1] 1] ∧
      Improves (risingFees.candidates 0 smallOutputs) 100 (100 + 200)
        [risingFees.candidate smallOutputs[1] 1] [risingFees.candidate smallOutputs[0] 0] := by
  have ordered : largestFirst (risingFees.candidates 0 smallOutputs) =
      risingFees.candidates 0 smallOutputs :=
    largestFirst_of_sorted (by decide +kernel)
  refine ⟨by decide +kernel, ?_, by decide +kernel, by decide +kernel, by decide +kernel⟩
  rw [select, search, ordered]
  decide +kernel

end BranchAndBound

end CoinSelection
