import CoinSelection.Proofs.Pricing
import Mathlib.Data.List.Sort

/-!
# Lists of candidates

The candidates of a pass are its outputs at their exact prices, numbered, less
those that are not worth spending.  What a list of candidates is worth does not
depend on its order, and no part of it is worth more than the whole.
-/

namespace CoinSelection

open Checked Outcome

/-! ## What candidates are worth -/

namespace Candidate

/-- The sum of effective values. -/
def worth (candidates : List Candidate) : Int :=
  (candidates.map effectiveValue).sum

/-- The sum of amounts. -/
def amounts (candidates : List Candidate) : Nat :=
  (candidates.map amount).sum

/-- The sum of fees. -/
def fees (candidates : List Candidate) : Nat :=
  (candidates.map fee).sum

/-- The sum of long-term fees. -/
def longTermFees (candidates : List Candidate) : Nat :=
  (candidates.map longTermFee).sum

@[simp]
theorem worth_nil : worth [] = 0 :=
  rfl

@[simp]
theorem worth_cons (candidate : Candidate) (rest : List Candidate) :
    worth (candidate :: rest) = candidate.effectiveValue + worth rest := by
  simp [worth]

@[simp]
theorem worth_append (first second : List Candidate) :
    worth (first ++ second) = worth first + worth second := by
  simp [worth]

theorem amounts_cons (candidate : Candidate) (rest : List Candidate) :
    amounts (candidate :: rest) = candidate.amount + amounts rest := by
  simp [amounts]

theorem fees_cons (candidate : Candidate) (rest : List Candidate) :
    fees (candidate :: rest) = candidate.fee + fees rest := by
  simp [fees]

theorem longTermFees_cons (candidate : Candidate) (rest : List Candidate) :
    longTermFees (candidate :: rest) = candidate.longTermFee + longTermFees rest := by
  simp [longTermFees]

theorem worth_perm {first second : List Candidate} (perm : first.Perm second) :
    worth first = worth second :=
  (perm.map _).sum_eq

theorem amounts_perm {first second : List Candidate} (perm : first.Perm second) :
    amounts first = amounts second :=
  (perm.map _).sum_eq

theorem fees_perm {first second : List Candidate} (perm : first.Perm second) :
    fees first = fees second :=
  (perm.map _).sum_eq

theorem longTermFees_perm {first second : List Candidate} (perm : first.Perm second) :
    longTermFees first = longTermFees second :=
  (perm.map _).sum_eq

theorem longTermFees_sublist {part whole : List Candidate} (sublist : part.Sublist whole) :
    longTermFees part ≤ longTermFees whole :=
  (sublist.map longTermFee).sum_le_sum (by simp)

/-- A candidate that costs nothing to spend. -/
def free (vout : UInt32) (value : Nat) : Candidate where
  utxo := { outpoint := ⟨⟨Vector.replicate 32 0⟩, vout⟩, amount := value.toUInt64 }
  fee := 0
  longTermFee := 0
  effectiveValue := value

/-- All candidates are worth spending. -/
def Positive (candidates : List Candidate) : Prop :=
  ∀ candidate ∈ candidates, 0 < candidate.effectiveValue

theorem Positive.subset {part whole : List Candidate} (positive : Positive whole)
    (subset : part ⊆ whole) : Positive part :=
  fun candidate member => positive candidate (subset member)

theorem Positive.worth_nonneg {candidates : List Candidate} (positive : Positive candidates) :
    0 ≤ worth candidates :=
  List.sum_nonneg (by simpa using fun candidate member => (positive candidate member).le)

/-- A part of a list is worth no more than the list. -/
theorem Positive.worth_le {part whole : List Candidate} (positive : Positive whole)
    (subperm : part.Subperm whole) : worth part ≤ worth whole := by
  obtain ⟨arranged, perm, sublist⟩ := subperm
  rw [← worth_perm perm]
  exact (sublist.map effectiveValue).sum_le_sum
    (by simpa using fun candidate member => (positive candidate member).le)

/-- Candidates that are worth spending, whose effective values are exact and
whose amounts add up to a signed word. -/
structure Economic (candidates : List Candidate) : Prop where
  positive : Positive candidates
  exact : ∀ candidate ∈ candidates,
    candidate.effectiveValue = (candidate.amount : Int) - candidate.fee
  fits : (amounts candidates : Int) ≤ greatestSigned

/-- Effective values are what fees leave of the amounts. -/
theorem Economic.worth_add_fees {candidates : List Candidate} (economic : Economic candidates) :
    worth candidates + fees candidates = amounts candidates := by
  suffices general : ∀ part : List Candidate, part ⊆ candidates →
      worth part + fees part = (amounts part : Int) by
    exact general candidates (List.Subset.refl candidates)
  intro part
  induction part with
  | nil => simp [fees, amounts]
  | cons candidate rest ih =>
      intro subset
      have rest_eq := ih fun other member => subset (List.mem_cons_of_mem candidate member)
      have head_eq := economic.exact candidate (subset List.mem_cons_self)
      rw [worth_cons, fees_cons, amounts_cons]
      omega

theorem Economic.subperm {part whole : List Candidate} (economic : Economic whole)
    (subperm : part.Subperm whole) : Economic part where
  positive := economic.positive.subset subperm.subset
  exact candidate member := economic.exact candidate (subperm.subset member)
  fits := by
    obtain ⟨arranged, perm, sublist⟩ := subperm
    have amounts_le : amounts arranged ≤ amounts whole :=
      (sublist.map amount).sum_le_sum (by simp)
    rw [← amounts_perm perm]
    exact le_trans (Int.ofNat_le.mpr amounts_le) economic.fits

theorem Economic.worth_le_amounts {candidates : List Candidate} (economic : Economic candidates) :
    worth candidates ≤ amounts candidates := by
  have balance := economic.worth_add_fees
  omega

theorem Economic.fees_le_amounts {candidates : List Candidate} (economic : Economic candidates) :
    fees candidates ≤ amounts candidates := by
  have balance := economic.worth_add_fees
  have nonneg := economic.positive.worth_nonneg
  omega

theorem Economic.worth_fits {candidates : List Candidate} (economic : Economic candidates) :
    worth candidates ≤ greatestSigned :=
  economic.worth_le_amounts.trans economic.fits

end Candidate

/-! ## The order of a search -/

instance : Std.TransOrd Txid :=
  inferInstanceAs (Std.TransCmp (compareOn fun txid : Txid => txid.bytes.toList))

instance : Std.TransOrd OutPoint :=
  inferInstanceAs (Std.TransCmp (compareLex (compareOn OutPoint.txid) (compareOn OutPoint.vout)))

namespace Candidate

theorem precedes_iff {first second : Candidate} :
    precedes first second = true ↔
      second.effectiveValue < first.effectiveValue ∨
        first.effectiveValue = second.effectiveValue ∧
          (compare first.utxo.outpoint second.utxo.outpoint).isLE = true := by
  simp [precedes]

/-- A later candidate is worth no more. -/
theorem effectiveValue_le_of_precedes {first second : Candidate}
    (before : precedes first second = true) : second.effectiveValue ≤ first.effectiveValue := by
  rcases precedes_iff.mp before with less | ⟨same, _⟩
  · exact less.le
  · exact same.ge

theorem precedes_trans (first second third : Candidate)
    (before : precedes first second = true) (after : precedes second third = true) :
    precedes first third = true := by
  rw [precedes_iff] at before after ⊢
  rcases before with before | ⟨sameBefore, before⟩ <;> rcases after with after | ⟨sameAfter, after⟩
  · exact .inl (after.trans before)
  · exact .inl (sameAfter ▸ before)
  · exact .inl (sameBefore ▸ after)
  · exact .inr ⟨sameBefore.trans sameAfter, Std.TransCmp.isLE_trans before after⟩

theorem precedes_total (first second : Candidate) :
    (precedes first second || precedes second first) = true := by
  rw [Bool.or_eq_true, precedes_iff, precedes_iff]
  rcases lt_trichotomy first.effectiveValue second.effectiveValue with less | same | greater
  · exact .inr (.inl less)
  · have total : (compare first.utxo.outpoint second.utxo.outpoint).isLE = true ∨
        (compare second.utxo.outpoint first.utxo.outpoint).isLE = true := by
      have swapped : compare second.utxo.outpoint first.utxo.outpoint =
          (compare first.utxo.outpoint second.utxo.outpoint).swap := Std.OrientedCmp.eq_swap
      rw [swapped]
      cases compare first.utxo.outpoint second.utxo.outpoint <;> simp
    exact total.imp (fun order => .inr ⟨same, order⟩) fun order => .inr ⟨same.symm, order⟩
  · exact .inl (.inl greater)

/-- Candidates that precede each other have the same outpoint. -/
theorem outpoint_eq_of_precedes {first second : Candidate}
    (before : precedes first second = true) (after : precedes second first = true) :
    first.utxo.outpoint = second.utxo.outpoint := by
  rw [precedes_iff] at before after
  obtain ⟨_, before⟩ := before.resolve_left fun less => by omega
  obtain ⟨_, after⟩ := after.resolve_left fun less => by omega
  exact OutPoint.compare_eq_eq_iff.mp (Std.OrientedCmp.isLE_antisymm before after)

theorem largestFirst_perm (candidates : List Candidate) :
    (largestFirst candidates).Perm candidates :=
  List.mergeSort_perm candidates precedes

theorem largestFirst_pairwise (candidates : List Candidate) :
    (largestFirst candidates).Pairwise fun first second => precedes first second = true :=
  List.pairwise_mergeSort precedes_trans precedes_total candidates

/-- Candidates in the order of a search stay in it. -/
theorem largestFirst_of_sorted {candidates : List Candidate}
    (sorted : candidates.Pairwise fun first second => first.precedes second = true) :
    largestFirst candidates = candidates :=
  List.mergeSort_of_pairwise sorted

@[simp]
theorem largestFirst_singleton (candidate : Candidate) : largestFirst [candidate] = [candidate] :=
  List.mergeSort_singleton candidate

/-- The order of a search is that of no list where outpoints are distinct. -/
theorem largestFirst_eq_of_perm {first second : List Candidate}
    (distinct : (first.map fun candidate => candidate.utxo.outpoint).Nodup)
    (perm : first.Perm second) : largestFirst first = largestFirst second := by
  refine List.Perm.eq_of_pairwise ?_ (largestFirst_pairwise first) (largestFirst_pairwise second)
    ((largestFirst_perm first).trans (perm.trans (largestFirst_perm second).symm))
  intro candidate other member otherMember before after
  have candidateMember := (largestFirst_perm first).mem_iff.mp member
  have otherMember := perm.mem_iff.mpr ((largestFirst_perm second).mem_iff.mp otherMember)
  exact List.inj_on_of_nodup_map distinct candidateMember otherMember
    (outpoint_eq_of_precedes before after)

/-- Candidates are compared by their effective values, and by their outpoints
where these are the same. -/
def byValue : Candidate → Candidate → Ordering :=
  compareLex (compareOn effectiveValue) (compareOn fun candidate => candidate.utxo.outpoint)

instance : Std.TransCmp byValue :=
  inferInstanceAs (Std.TransCmp (compareLex _ _))

theorem byValue_eq_lt_iff {first second : Candidate} :
    byValue first second = .lt ↔
      first.effectiveValue < second.effectiveValue ∨
        first.effectiveValue = second.effectiveValue ∧
          compare first.utxo.outpoint second.utxo.outpoint = .lt := by
  simp only [byValue, compareLex, compareOn, Ordering.then_eq_lt, Std.compare_eq_lt,
    Std.LawfulEqCmp.compare_eq_iff_eq]

/-- A candidate that comes after no other one is worth no more. -/
theorem effectiveValue_le_of_byValue {first second : Candidate}
    (isLE : (byValue first second).isLE = true) : first.effectiveValue ≤ second.effectiveValue := by
  have value_le := Ordering.isLE_left_of_isLE_then isLE
  exact Std.isLE_compare.mp value_le

end Candidate

/-! ## The order of the offer -/

namespace Selection

theorem offeredOrder_perm (candidates : List Candidate) :
    (offeredOrder candidates).Perm candidates :=
  List.mergeSort_perm candidates _

/-- Candidates in the order of the offer stay in it. -/
theorem offeredOrder_of_sorted {candidates : List Candidate}
    (sorted : candidates.Pairwise fun first second => first.position ≤ second.position) :
    offeredOrder candidates = candidates :=
  List.mergeSort_of_pairwise (sorted.imp decide_eq_true)

@[simp]
theorem offeredOrder_singleton (candidate : Candidate) : offeredOrder [candidate] = [candidate] :=
  List.mergeSort_singleton candidate

theorem offeredOrder_pairwise (candidates : List Candidate) :
    (offeredOrder candidates).Pairwise fun first second => first.position ≤ second.position := by
  have sorted : (offeredOrder candidates).Pairwise fun first second =>
      decide (first.position ≤ second.position) = true :=
    List.pairwise_mergeSort (fun _ _ _ before after => by simp at before after ⊢; omega)
      (fun _ _ => by simp; omega) candidates
  simpa using sorted

/-- Some of the candidates, put back into the order of the offer, are a part of
the offer in its order. -/
theorem offeredOrder_sublist {chosen candidates : List Candidate}
    (increasing : candidates.Pairwise fun first second => first.position < second.position)
    (subperm : chosen.Subperm candidates) : (offeredOrder chosen).Sublist candidates := by
  obtain ⟨arranged, perm, sublist⟩ := subperm
  have arrangedIncreasing := increasing.sublist sublist
  suffices same : offeredOrder chosen = arranged by
    rw [same]
    exact sublist
  refine List.Perm.eq_of_pairwise ?_ (offeredOrder_pairwise chosen)
    (arrangedIncreasing.imp le_of_lt) ((offeredOrder_perm chosen).trans perm.symm)
  intro candidate other member otherMember before after
  have distinct : (arranged.map Candidate.position).Nodup :=
    List.pairwise_map.mpr (arrangedIncreasing.imp fun less => less.ne)
  have candidateMember := perm.mem_iff.mpr ((offeredOrder_perm chosen).mem_iff.mp member)
  exact List.inj_on_of_nodup_map distinct candidateMember otherMember (le_antisymm before after)

end Selection

end CoinSelection
