import CoinSelection.Proofs.Knapsack.Selection
import CoinSelection.Proofs.Renumbering

/-!
# The knapsack does not look at positions

Dividing the candidates commutes with renumbering them, and the approximation
only sees values.  So the knapsack draws the same words for renumbered
candidates and selects the same ones.  Of candidates in another order it selects
the same too where their outpoints are distinct.
-/

namespace CoinSelection.Knapsack

open Candidate Checked Outcome

variable {numbering : Nat → Nat}

/-! ## Dividing -/

/-- Renumber the candidates of a division. -/
def Division.renumber (numbering : Nat → Nat) (division : Division) : Division :=
  { division with
    lower := division.lower.map (Candidate.renumber numbering)
    larger := division.larger.map (Candidate.renumber numbering) }

theorem undercuts_renumber (candidate : Candidate) (larger : Option Candidate) :
    undercuts (candidate.renumber numbering) (larger.map (Candidate.renumber numbering)) =
      undercuts candidate larger := by
  cases larger <;> rfl

theorem divide_renumber (target bound : Int) (candidates : List Candidate) (division : Division) :
    divide target bound (candidates.map (Candidate.renumber numbering))
        (division.renumber numbering) =
      (divide target bound candidates division).map
        (Sum.map (Candidate.renumber numbering) (Division.renumber numbering)) := by
  induction candidates generalizing division with
  | nil => rfl
  | cons candidate rest ih =>
      have value_eq : (candidate.renumber numbering).effectiveValue = candidate.effectiveValue :=
        renumber_effectiveValue candidate
      have undercuts_eq :
          undercuts (candidate.renumber numbering) (division.renumber numbering).larger =
            undercuts candidate division.larger :=
        undercuts_renumber candidate division.larger
      rw [List.map_cons, divide, divide, undercuts_eq]
      by_cases meets : candidate.effectiveValue = target
      · rw [if_pos meets, if_pos (value_eq.trans meets)]
        rfl
      rw [if_neg meets, if_neg (value_eq.trans_ne meets)]
      by_cases smaller : candidate.effectiveValue < bound
      · rw [if_pos smaller, if_pos (value_eq.trans_lt smaller), exceptMap_bind]
        congr 1
        funext lowerTotal
        exact ih { division with lower := candidate :: division.lower, lowerTotal }
      rw [if_neg smaller, if_neg (value_eq.symm ▸ smaller)]
      split
      · exact ih { division with larger := some candidate }
      · exact ih division

/-! ## Selecting -/

theorem masked_renumber (candidates : List Candidate) (mask : List Bool) :
    masked (candidates.map (Candidate.renumber numbering)) mask =
      (masked candidates mask).map (Candidate.renumber numbering) := by
  induction candidates generalizing mask with
  | nil => cases mask <;> rfl
  | cons candidate rest ih =>
      cases mask with
      | nil => rfl
      | cons taken mask =>
          rw [List.map_cons, masked_cons, masked_cons, ih]
          split <;> rfl

theorem settle_renumber (target bound : Int) (lower : List Candidate) (best : Subset)
    (larger : Option Candidate) :
    settle target bound (lower.map (Candidate.renumber numbering)) best
        (larger.map (Candidate.renumber numbering)) =
      (settle target bound lower best larger).map (Candidate.renumber numbering) := by
  cases larger with
  | none => exact masked_renumber lower best.mask
  | some candidate =>
      simp only [settle, Option.map_some, renumber_effectiveValue, masked_renumber]
      split <;> rfl

theorem selectLower_renumber (source : RandomSource) (target bound : Int) (lower : List Candidate)
    (lowerTotal : Int) (larger : Option Candidate) :
    selectLower source target bound (lower.map (Candidate.renumber numbering)) lowerTotal
        (larger.map (Candidate.renumber numbering)) =
      List.map (Candidate.renumber numbering) <$>
        selectLower source target bound lower lowerTotal larger := by
  rw [selectLower_eq, selectLower_eq, map_bind, map_effectiveValue_renumber]
  congr 1
  funext best
  rw [settle_renumber, map_pure]

/-- The knapsack draws as many words and selects the same candidates under other
numbers. -/
theorem select_renumber (source : RandomSource) (minimumChange : Nat)
    (candidates : List Candidate) (target : Nat) :
    select source minimumChange (candidates.map (Candidate.renumber numbering)) target =
      List.map (Candidate.renumber numbering) <$>
        select source minimumChange candidates target := by
  unfold select
  cases toSigned? target with
  | none =>
      rw [insufficient_renumber]
      rfl
  | some signedTarget =>
      dsimp only
      have divide_eq := @divide_renumber numbering signedTarget
        (saturatingAddSigned signedTarget (clampSigned minimumChange)) (largestFirst candidates) {}
      rw [largestFirst_renumber, map_bind]
      change Draw.ofOutcome (divide _ _ _ (Division.renumber numbering {})) >>= _ = _
      rw [divide_eq, Draw.ofOutcome_map_bind]
      congr 1
      funext divided
      cases divided with
      | inl candidate => rfl
      | inr division =>
          simp only [Sum.map_inr, Division.renumber]
          split_ifs with meets short
          · rw [map_pure, List.map_reverse]
          · cases division.larger with
            | none =>
                rw [Option.map_none, insufficient_renumber]
                rfl
            | some candidate => rfl
          · rw [← List.map_reverse, selectLower_renumber]

/-! ## The order of the candidates -/

/-- The knapsack draws and selects the same from candidates in another order. -/
theorem select_perm {first second : List Candidate}
    (distinct : (first.map fun candidate => candidate.utxo.outpoint).Nodup)
    (perm : first.Perm second) (source : RandomSource) (minimumChange target : Nat) :
    select source minimumChange first target = select source minimumChange second target := by
  simp only [select, largestFirst_eq_of_perm distinct perm, insufficient_perm perm]

end CoinSelection.Knapsack
