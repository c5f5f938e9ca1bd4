import CoinSelection.Proofs.BranchAndBound.Selection
import CoinSelection.Proofs.Preparation

/-!
# Candidates priced at two rates

A list of candidates that one pair of rates prices has exact fees, effective
values and wastes.  Fees rise with the rate, so the two rates decide for all
candidates alike whether spending them now costs more than in the long run.
-/

namespace CoinSelection

open Checked Outcome

namespace Candidate

variable {effective longTerm : FeeCalculator} {candidate : Candidate} {candidates : List Candidate}

/-- Pricing the output gives the candidate, wherever that is placed. -/
def PricedAt (effective longTerm : FeeCalculator) (candidate : Candidate) : Prop :=
  ∃ priced, price effective longTerm candidate.utxo = .ok priced ∧
    candidate = { priced with position := candidate.position }

/-- A priced candidate is the output at its exact price. -/
theorem pricedAt_iff :
    PricedAt effective longTerm candidate ↔
      Fees.Prices { effective, longTerm } candidate.utxo ∧
        candidate =
          Fees.candidate { effective, longTerm } candidate.utxo candidate.position := by
  have price_iff (fees : Fees) (priced : Candidate) :
      price fees.effective fees.longTerm candidate.utxo = .ok priced ↔
        fees.Prices candidate.utxo ∧ priced = fees.candidate candidate.utxo 0 :=
    Fees.price_eq_ok_iff
  constructor
  · rintro ⟨priced, price_eq, candidate_eq⟩
    obtain ⟨prices, rfl⟩ := (price_iff { effective, longTerm } priced).mp price_eq
    exact ⟨prices, candidate_eq⟩
  · rintro ⟨prices, candidate_eq⟩
    exact ⟨_, (price_iff { effective, longTerm } _).mpr ⟨prices, rfl⟩, candidate_eq⟩

theorem PricedAt.fee_eq (priced : PricedAt effective longTerm candidate) :
    candidate.fee = effective.exactInputFee candidate.utxo := by
  rw [(pricedAt_iff.mp priced).2]
  rfl

theorem PricedAt.longTermFee_eq (priced : PricedAt effective longTerm candidate) :
    candidate.longTermFee = longTerm.exactInputFee candidate.utxo := by
  rw [(pricedAt_iff.mp priced).2]
  rfl

theorem PricedAt.effectiveValue_eq (priced : PricedAt effective longTerm candidate) :
    candidate.effectiveValue = clampSigned candidate.amount - clampSigned candidate.fee := by
  rw [(pricedAt_iff.mp priced).2]
  rfl

/-- Fees are small next to a signed word. -/
theorem PricedAt.fees_fit (priced : PricedAt effective longTerm candidate) :
    (candidate.fee : Int) ≤ greatestSigned ∧ (candidate.longTermFee : Int) ≤ greatestSigned := by
  have prices := (pricedAt_iff.mp priced).1
  have fee_lt := FeeCalculator.exactFee_lt prices.effective.product
  have longTermFee_lt := FeeCalculator.exactFee_lt prices.longTerm.product
  rw [priced.fee_eq, priced.longTermFee_eq]
  simp only [FeeCalculator.exactInputFee, greatestSigned] at *
  omega

/-- The waste of a priced candidate is exact. -/
theorem PricedAt.exactWaste_eq (priced : PricedAt effective longTerm candidate) :
    candidate.exactWaste = candidate.fee - candidate.longTermFee := by
  rw [exactWaste, reinterpret_of_le priced.fees_fit.1, reinterpret_of_le priced.fees_fit.2]

/-- Computing the waste of a priced candidate does not overflow. -/
theorem PricedAt.waste_eq_ok (priced : PricedAt effective longTerm candidate) :
    candidate.waste = .ok (candidate.fee - candidate.longTermFee) := by
  have fees_fit := priced.fees_fit
  refine waste_eq_ok_iff.mpr ⟨?_, priced.exactWaste_eq.symm⟩
  rw [priced.exactWaste_eq, fitsSigned_iff]
  simp only [greatestSigned] at fees_fit
  omega

/-- At a lower long-term rate no output costs less now than in the long run. -/
theorem PricedAt.longTermFee_le (priced : PricedAt effective longTerm candidate)
    (rate_le : longTerm.baseRate ≤ effective.baseRate) : candidate.longTermFee ≤ candidate.fee := by
  rw [priced.fee_eq, priced.longTermFee_eq]
  exact FeeCalculator.exactFee_mono rate_le le_rfl

/-- At a higher long-term rate no output costs more now than in the long run. -/
theorem PricedAt.fee_le (priced : PricedAt effective longTerm candidate)
    (rate_le : effective.baseRate ≤ longTerm.baseRate) : candidate.fee ≤ candidate.longTermFee := by
  rw [priced.fee_eq, priced.longTermFee_eq]
  exact FeeCalculator.exactFee_mono rate_le le_rfl

/-- If one output costs more now than in the long run, none costs less. -/
theorem PricedAt.exactWaste_nonneg {first : Candidate}
    (firstPriced : PricedAt effective longTerm first) (firstWaste : 0 < first.exactWaste)
    (priced : PricedAt effective longTerm candidate) : 0 ≤ candidate.exactWaste := by
  rw [firstPriced.exactWaste_eq] at firstWaste
  rw [priced.exactWaste_eq]
  rcases le_total longTerm.baseRate effective.baseRate with lower | higher
  · have le := priced.longTermFee_le lower
    omega
  · have le := firstPriced.fee_le higher
    omega

/-- If the first candidate costs more now than in the long run, none costs less. -/
theorem exactWaste_nonneg_of_first
    (priced : ∀ candidate ∈ candidates, PricedAt effective longTerm candidate) {first : Int}
    (first_eq : BranchAndBound.firstWaste candidates = .ok first) (first_pos : 0 < first) :
    ∀ candidate ∈ candidates, 0 ≤ candidate.exactWaste := by
  intro candidate member
  cases candidates with
  | nil => cases member
  | cons head rest =>
      rw [(waste_eq_ok_iff.mp first_eq).2] at first_pos
      exact (priced head List.mem_cons_self).exactWaste_nonneg first_pos (priced candidate member)

/-- Priced candidates that are worth spending are economic. -/
theorem economic_of_priced
    (priced : ∀ candidate ∈ candidates, PricedAt effective longTerm candidate)
    (positive : Positive candidates) (fits : (amounts candidates : Int) ≤ greatestSigned) :
    Economic candidates where
  positive := positive
  fits := fits
  exact candidate member := by
    have candidate_eq := (pricedAt_iff.mp (priced candidate member)).2
    have worthwhile := positive candidate member
    have amount_le : candidate.amount ≤ amounts candidates :=
      List.le_sum_of_mem (List.mem_map_of_mem member)
    have utxoFits : (candidate.utxo.amount.toNat : Int) ≤ greatestSigned := by
      change (candidate.amount : Int) ≤ greatestSigned
      omega
    rw [candidate_eq] at worthwhile ⊢
    exact Fees.effectiveValue_eq utxoFits worthwhile

end Candidate

/-- The candidates of a pass are priced at its rates. -/
theorem Fees.pricedAt {fees : Fees} {position : Nat} {utxos : List Utxo} {candidate : Candidate}
    (prices : ∀ utxo ∈ utxos, fees.Prices utxo)
    (member : candidate ∈ fees.candidates position utxos) :
    candidate.PricedAt fees.effective fees.longTerm := by
  obtain ⟨candidate_eq, utxoMember, _⟩ := mem_candidates member
  obtain ⟨effective, longTerm⟩ := prices candidate.utxo utxoMember
  exact Candidate.pricedAt_iff.mpr ⟨⟨effective, longTerm⟩, candidate_eq⟩

end CoinSelection
