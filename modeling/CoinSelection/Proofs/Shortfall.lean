import CoinSelection.Proofs.Answers

/-!
# What a lack of funds is reported as

A request is refused for a lack of funds in three places, and in each of them it
needs more than it says to be available.  Once the outputs are priced, what is
available are the amounts of the candidates, what is needed are the target and
all fees, and so the difference is what the candidates are short of the target.
-/

namespace CoinSelection

open Checked Outcome

/-! ## Candidates that are short -/

/-- The totals of economic candidates do not saturate. -/
theorem Candidate.Economic.insufficient_eq {candidates : List Candidate}
    (economic : Economic candidates) {target : Nat} (targetFits : (target : Int) ≤ greatestSigned) :
    insufficient candidates target =
      .insufficientFunds (target + fees candidates) (amounts candidates) := by
  have fits := economic.fits
  have fees_le := economic.fees_le_amounts
  have amountsFit : amounts candidates ≤ greatestWord := by
    simp only [greatestSigned, greatestWord, wordBound] at *
    omega
  have neededFits : target + fees candidates ≤ greatestWord := by
    simp only [greatestSigned, greatestWord, wordBound] at *
    omega
  have available_eq : saturatingSum (candidates.map amount) = amounts candidates :=
    saturatingSum_of_le amountsFit
  have fees_eq : saturatingSum (candidates.map fee) = fees candidates :=
    saturatingSum_of_le ((Nat.le_add_left _ target).trans neededFits)
  rw [insufficient, available_eq, fees_eq, saturatingAdd, min_eq_left neededFits]

/-! ## Refused requests -/

/-- A refusal names more as needed than as available.  If there are accepted
outputs, and the target with the fees for the rest of the transaction fits a
signed word, then the candidates are priced, their amounts are available, and
the difference is what they are short of that target after their fees. -/
structure Shortfall (target : Nat) (accepted : List Utxo) (fees : Fees) (options : Options)
    (needed available : Nat) : Prop where
  available_lt : available < needed
  exact : accepted ≠ [] →
    ((target + fees.exactNotInputFees options : Nat) : Int) ≤ greatestSigned →
      fees.notInputFees options = .ok (fees.exactNotInputFees options) ∧
        ∃ candidates, economicCandidates fees 0 accepted = .ok candidates ∧
          available = Candidate.amounts candidates ∧
          needed = target + fees.exactNotInputFees options + Candidate.fees candidates ∧
          (needed : Int) - available =
            (target + fees.exactNotInputFees options : Nat) - Candidate.worth candidates

variable {source : RandomSource} {target : Nat} {pool accepted : List Utxo} {filter : Filter}
  {options : Options} {fees : Fees} {needed available : Nat}

/-- A refusal for a lack of funds names the shortfall. -/
theorem Answered.shortfall (positive : 0 < target)
    (answered : Answered target accepted fees options
      (refuse (.insufficientFunds needed available))) :
    Shortfall target accepted fees options needed available := by
  generalize outcome_eq :
    (refuse (.insufficientFunds needed available) : Outcome Selection) = outcome at answered
  cases answered with
  | nothingAccepted empty =>
      cases outcome_eq
      exact ⟨positive, fun nonempty => absurd empty nonempty⟩
  | totalTooLarge => cases outcome_eq
  | targetTooLarge fits large =>
      cases outcome_eq
      refine ⟨?_, fun _ targetFits => absurd targetFits (not_le.mpr large)⟩
      rw [saturatingAdd, lt_min_iff]
      simp only [greatestSigned, greatestWord, wordBound] at *
      omega
  | short ready short =>
      have economic := ready.economic
      have balance := economic.worth_add_fees
      rw [economic.insufficient_eq ready.targetFits] at outcome_eq
      cases outcome_eq
      refine ⟨by omega, fun _ _ => ⟨Fees.notInputFees_eq_ok_iff.mpr ⟨ready.product, rfl⟩, _,
        Fees.economicCandidates_eq_ok_iff.mpr ⟨ready.prices, rfl⟩, rfl, rfl, by omega⟩⟩
  | selects => cases outcome_eq

/-- Whatever the source draws, a request that is refused for a lack of funds
needs more than is available, and the difference is the true shortfall at the
rates of its pass. -/
theorem select_shortfall {drawn later : Nat}
    (refused : (select source target pool filter options).run drawn =
      (refuse (.insufficientFunds needed available), later)) :
    filter.accepted pool = .ok (pool.filter filter.admits) ∧
      Shortfall target (pool.filter filter.admits) (options.fees (options.paysFee filter)) options
        needed available := by
  obtain ⟨positive, accepts, answered⟩ := answered_of_refuses (by simp) refused
  exact ⟨accepts, answered.shortfall positive⟩

/-! ## One request in full -/

/-- Two outputs worth spending, and one that costs more than its amount. -/
def dustyOutputs : List Utxo :=
  twoOutputs ++ [{ outpoint := ⟨⟨Vector.replicate 32 0⟩, 2⟩, amount := 40 }]

/-- A thousand is more than they pay for: nine hundred are available, and the
fees are eleven and twice forty-one. -/
theorem select_dustyOutputs (source : RandomSource) (drawn : Nat) :
    (select source 1000 dustyOutputs {} relayOptions).run drawn =
      (refuse (.insufficientFunds 1093 900), drawn) := by
  have prepared : prepare 1000 dustyOutputs {} relayOptions = .ok
      { candidates := (relayOptions.fees true).candidates 0 twoOutputs
        target := 1011
        strategy := .branchAndBound 235 (.knapsack defaultMinimumChange) } := by
    decide +kernel
  have searched : BranchAndBound.select 235 ((relayOptions.fees true).candidates 0 twoOutputs)
      1011 = refuse (.insufficientFunds 1093 900) := by
    decide +kernel
  have fallenBack : (Knapsack.select source defaultMinimumChange
      ((relayOptions.fees true).candidates 0 twoOutputs) 1011).run drawn =
        (refuse (.insufficientFunds 1093 900), drawn) := by
    rw [Knapsack.select, Candidate.largestFirst_of_sorted (by decide +kernel)]
    rfl
  have refused : ((Strategy.branchAndBound 235 (.knapsack defaultMinimumChange)).select source
      ((relayOptions.fees true).candidates 0 twoOutputs) 1011).run drawn =
        (refuse (.insufficientFunds 1093 900), drawn) := by
    rw [Strategy.select, searched]
    exact Draw.run_bind_of_error fallenBack _
  rw [select_run_of_ok (by decide +kernel) (by decide +kernel) (by decide) prepared, refused]
  rfl

/-- The two candidates are worth eight hundred and eighteen, which is one hundred
and ninety-three short of one thousand and eleven. -/
theorem select_shortfall_dustyOutputs :
    (select (fun _ => 0) 1000 dustyOutputs {} relayOptions).run 0 =
        (refuse (.insufficientFunds 1093 900), 0) ∧
      Shortfall 1000 dustyOutputs (relayOptions.fees true) relayOptions 1093 900 ∧
        ∃ candidates, economicCandidates (relayOptions.fees true) 0 dustyOutputs = .ok candidates ∧
          Candidate.amounts candidates = 900 ∧ Candidate.worth candidates = 818 := by
  have refused := select_dustyOutputs (fun _ => 0) 0
  have shortfall : Shortfall 1000 dustyOutputs (relayOptions.fees true) relayOptions 1093 900 :=
    (select_shortfall refused).2
  have priced : economicCandidates (relayOptions.fees true) 0 dustyOutputs =
      .ok ((relayOptions.fees true).candidates 0 twoOutputs) := by
    decide +kernel
  exact ⟨refused, shortfall, _, priced, by decide +kernel, by decide +kernel⟩

end CoinSelection
