import CoinSelection.Proofs.Candidates

/-!
# Renumbering candidates

The position of a candidate says where its output was offered.  No search looks
at it, so renumbering the candidates renumbers what is selected and changes
nothing else.  This file is about lists; the searches follow in their folders.
-/

namespace CoinSelection.Candidate

/-- Give a candidate the number that its position is mapped to. -/
def renumber (numbering : Nat → Nat) (candidate : Candidate) : Candidate :=
  { candidate with position := numbering candidate.position }

variable {numbering : Nat → Nat}

@[simp]
theorem renumber_utxo (candidate : Candidate) :
    (candidate.renumber numbering).utxo = candidate.utxo :=
  rfl

@[simp]
theorem renumber_fee (candidate : Candidate) : (candidate.renumber numbering).fee = candidate.fee :=
  rfl

@[simp]
theorem renumber_amount (candidate : Candidate) :
    (candidate.renumber numbering).amount = candidate.amount :=
  rfl

@[simp]
theorem renumber_effectiveValue (candidate : Candidate) :
    (candidate.renumber numbering).effectiveValue = candidate.effectiveValue :=
  rfl

@[simp]
theorem renumber_waste (candidate : Candidate) :
    (candidate.renumber numbering).waste = candidate.waste :=
  rfl

section Lists

variable (candidates : List Candidate)

@[simp]
theorem map_utxo_renumber :
    (candidates.map (renumber numbering)).map utxo = candidates.map utxo := by
  simp [Function.comp_def]

@[simp]
theorem map_effectiveValue_renumber :
    (candidates.map (renumber numbering)).map effectiveValue = candidates.map effectiveValue := by
  simp [Function.comp_def]

@[simp]
theorem worth_renumber : worth (candidates.map (renumber numbering)) = worth candidates := by
  simp [worth, Function.comp_def]

@[simp]
theorem amounts_renumber : amounts (candidates.map (renumber numbering)) = amounts candidates := by
  simp [amounts, Function.comp_def]

@[simp]
theorem fees_renumber : fees (candidates.map (renumber numbering)) = fees candidates := by
  simp [fees, Function.comp_def]

@[simp]
theorem insufficient_renumber (target : Nat) :
    insufficient (candidates.map (renumber numbering)) target = insufficient candidates target := by
  simp [insufficient, Function.comp_def]

theorem largestFirst_renumber :
    largestFirst (candidates.map (renumber numbering)) =
      (largestFirst candidates).map (renumber numbering) := by
  have precedes_eq : ∀ first ∈ candidates, ∀ second ∈ candidates, precedes first second =
      precedes (first.renumber numbering) (second.renumber numbering) :=
    fun _ _ _ _ => rfl
  exact (List.map_mergeSort precedes_eq).symm

end Lists

/-- The error for a target that is not reached does not depend on the order. -/
theorem insufficient_perm {first second : List Candidate} (perm : first.Perm second)
    (target : Nat) : insufficient first target = insufficient second target := by
  simp only [insufficient, Checked.saturatingSum_eq_min, (perm.map fee).sum_eq,
    (perm.map amount).sum_eq]

end CoinSelection.Candidate
