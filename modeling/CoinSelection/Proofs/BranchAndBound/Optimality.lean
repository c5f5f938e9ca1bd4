import CoinSelection.Proofs.BranchAndBound.Completeness
import CoinSelection.Proofs.Rates

/-!
# Optimality of a search

The selection of an exhausted search wastes no more than any other part of the
candidates in the window.  The shortcuts of the search are harmless together:

* what lies below a selection in the window adds inputs that cost no more in the
  long run than they are worth, so it wastes no less;
* inputs cost now and in the long run according to the two rates, so if the
  first one costs more now than in the long run none costs less;
* equals waste the same, so exchanging them changes nothing.
-/

namespace CoinSelection

open Candidate Checked Outcome

/-! ## The waste of a selection -/

/-- What a selection wastes: what its inputs cost more than in the long run, and
what it exceeds the target by. -/
def Candidate.wasteOver (target : Int) (part : List Candidate) : Int :=
  fees part - longTermFees part + (worth part - target)

theorem Candidate.wasteOver_perm {first second : List Candidate} (perm : first.Perm second)
    (target : Int) : wasteOver target first = wasteOver target second := by
  rw [wasteOver, wasteOver, fees_perm perm, longTermFees_perm perm, worth_perm perm]

namespace BranchAndBound

section Least

variable {goal : Goal} {candidates part : List Candidate} {best : Best} {place : Place}

/-- Conditions under which no shortcut of a search loses the least waste of the
selections that are wanted: nothing wanted extends a selection in the window and
wastes less, and exchanging equals leads from one wanted selection to another
of the same waste. -/
structure Goal.Preserves (goal : Goal) (candidates : List Candidate)
    (wanted : List Candidate → Prop) : Prop where
  positive : Positive candidates
  bounded : goal.boundsWaste = true → ∀ candidate ∈ candidates, 0 ≤ candidate.exactWaste
  equals : goal.skipsEqual = true → ∀ first ∈ candidates, ∀ second ∈ candidates,
    first.effectiveValue = second.effectiveValue → first.fee = second.fee →
      first.exactWaste = second.exactWaste
  extension : ∀ {selected added : List Candidate}, added ⊆ candidates →
    goal.target ≤ worth selected → wanted (selected ++ added) → 0 ≤ totalWaste added + worth added
  exchanges : ∀ {later previous candidate earlier},
    previous.effectiveValue = candidate.effectiveValue →
      wanted (chosen (later ++ (candidate, true) :: (previous, false) :: earlier)) →
        wanted (chosen (exchange later previous candidate earlier))

/-- A search learns that it has a selection of no more waste than any that is
wanted and in the window. -/
theorem learns_leastWanted {wanted : List Candidate → Prop}
    (preserves : goal.Preserves candidates wanted) :
    goal.Learns candidates (fun _ _ => True) fun best whole =>
      goal.Admits candidates (chosen whole) → wanted (chosen whole) →
        best.waste ≤ totalWaste (chosen whole) + (worth (chosen whole) - goal.target) where
  keeps _ known admits isWanted := (visit_waste_le goal _ _).trans (known admits isWanted)
  turns := by
    rintro best place whole rfl - turns completes below admits isWanted
    obtain ⟨added, sublist, chosen_eq⟩ := exists_chosen_below completes below
    have added_subset := (sublist.trans place.undecided_sublist).subset
    have reached := admits.target_le
    rcases turn_cases preserves.positive turns completes below admits with
      ⟨bounds, less, visit_eq⟩ | ⟨hit, visit_eq⟩
    · have nonneg := totalWaste_nonneg fun candidate member =>
        preserves.bounded bounds candidate (added_subset member)
      rw [visit_eq]
      rw [chosen_eq] at reached ⊢
      rw [totalWaste_append]
      omega
    · have nonneg := preserves.extension added_subset hit (chosen_eq ▸ isWanted)
      have recorded := best.record_waste_le_left place.decided
        (totalWaste (chosen place.decided) + (worth (chosen place.decided) - goal.target))
      rw [visit_eq, chosen_eq, totalWaste_append, worth_append]
      omega
  exchanges := by
    intro skips best later previous candidate earlier sameValue sameFee completes known admits
      isWanted
    have members : candidate ∈ candidates ∧ previous ∈ candidates := by
      rw [← completes]
      simp
    have sameWaste :=
      preserves.equals skips previous members.2 candidate members.1 sameValue sameFee
    have least := known (admits_exchange sameValue completes admits)
      (preserves.exchanges sameValue isWanted)
    simpa [exchange, chosen_append, sameValue, sameWaste] using least

/-- The least waste is that of the best selection. -/
def Best.Accounts (goal : Goal) (best : Best) : Prop :=
  ∀ part, best.selection? = some part →
    best.waste = totalWaste part + (worth part - goal.target)

theorem Best.Accounts.record (accounts : best.Accounts goal) {decisions : List Decision}
    {waste : Int}
    (waste_eq : waste = totalWaste (chosen decisions) + (worth (chosen decisions) - goal.target)) :
    (best.record decisions waste).Accounts goal := by
  unfold Best.record
  split
  · intro part found
    obtain rfl : chosen decisions = part := by simpa [Best.selection?] using found
    exact waste_eq
  · exact accounts

theorem visit_accounts (accounts : best.Accounts goal) :
    (goal.visit best place).1.Accounts goal := by
  unfold Goal.visit
  cases judged : goal.verdict best.waste place with
  | below => exact accounts
  | dead => exact accounts
  | hit waste => exact accounts.record (admits_of_hit judged).2

theorem explore_accounts (tries : Nat) : (goal.explore tries {} place).best.Accounts goal :=
  explore_keeps (fun _ _ accounts => visit_accounts accounts) fun _ nothing => by cases nothing

/-- The selection of an exhausted search wastes no more than any that is wanted
and in the window. -/
theorem explore_leastWanted {wanted : List Candidate → Prop}
    (preserves : goal.Preserves candidates wanted) {tries : Nat}
    (exhausted : (goal.explore tries {} (.start candidates)).exhausted = true)
    {selected : List Candidate}
    (found : (goal.explore tries {} (.start candidates)).best.selection? = some selected)
    (admits : goal.Admits candidates part) (isWanted : wanted part) :
    totalWaste selected + (worth selected - goal.target) ≤
      totalWaste part + (worth part - goal.target) := by
  obtain ⟨whole, completes, rfl⟩ := exists_completes admits.sublist
  rw [← explore_accounts tries selected found]
  exact (learns_leastWanted preserves).explore_start (fun _ _ => trivial) exhausted completes admits
    isWanted

/-- Conditions on the candidates under which no shortcut of a search loses a
selection of less waste. -/
structure Goal.Lossless (goal : Goal) (candidates : List Candidate) : Prop where
  positive : Positive candidates
  added : ∀ candidate ∈ candidates, 0 ≤ candidate.exactWaste + candidate.effectiveValue
  bounded : goal.boundsWaste = true → ∀ candidate ∈ candidates, 0 ≤ candidate.exactWaste
  equals : goal.skipsEqual = true → ∀ first ∈ candidates, ∀ second ∈ candidates,
    first.effectiveValue = second.effectiveValue → first.fee = second.fee →
      first.exactWaste = second.exactWaste

/-- Inputs that cost no more in the long run than they are worth do not lessen
the waste of a selection that they are added to. -/
theorem totalWaste_add_worth_nonneg
    (added : ∀ candidate ∈ part, 0 ≤ candidate.exactWaste + candidate.effectiveValue) :
    0 ≤ totalWaste part + worth part := by
  induction part with
  | nil => simp
  | cons candidate rest ih =>
      have restAdded := ih fun other member => added other (List.mem_cons_of_mem candidate member)
      have candidateAdded := added candidate List.mem_cons_self
      rw [totalWaste_cons, worth_cons]
      omega

/-- Under these every part of the candidates may be wanted. -/
theorem Goal.Lossless.preserves (lossless : goal.Lossless candidates) :
    goal.Preserves candidates fun _ => True where
  positive := lossless.positive
  bounded := lossless.bounded
  equals := lossless.equals
  extension subset _ _ :=
    totalWaste_add_worth_nonneg fun candidate member => lossless.added candidate (subset member)
  exchanges _ _ := trivial

/-- The selection of an exhausted search wastes no more than any part of the
candidates in the window. -/
theorem explore_least (lossless : goal.Lossless candidates) {tries : Nat}
    (exhausted : (goal.explore tries {} (.start candidates)).exhausted = true)
    {selected : List Candidate}
    (found : (goal.explore tries {} (.start candidates)).best.selection? = some selected)
    (admits : goal.Admits candidates part) :
    totalWaste selected + (worth selected - goal.target) ≤
      totalWaste part + (worth part - goal.target) :=
  explore_leastWanted lossless.preserves exhausted found admits trivial

end Least

/-! ## Candidates at two rates -/

section Rates

variable {effective longTerm : FeeCalculator} {candidates : List Candidate}

/-- A search gives up on waste only where no candidate costs less now than in the
long run. -/
theorem exactWaste_nonneg_of_boundsWaste
    (priced : ∀ candidate ∈ candidates, PricedAt effective longTerm candidate)
    {first : Int} (firstWaste_eq : firstWaste candidates = .ok first) {pruning : Pruning}
    {target costOfChange : Nat}
    (bounds : (Goal.above pruning target costOfChange first).boundsWaste = true) :
    ∀ candidate ∈ candidates, 0 ≤ candidate.exactWaste :=
  exactWaste_nonneg_of_first priced firstWaste_eq
    (of_decide_eq_true ((Bool.and_eq_true pruning.waste (0 < first)).mp bounds).2)

/-- Shortcuts lose nothing for candidates at two rates, if none costs more in the
long run than it is worth and equals cost the same in the long run. -/
theorem lossless_of_priced
    (priced : ∀ candidate ∈ candidates, PricedAt effective longTerm candidate)
    (economic : Economic candidates)
    (longTerm_le : ∀ candidate ∈ candidates, candidate.longTermFee ≤ candidate.amount)
    (equals : ∀ first ∈ candidates, ∀ second ∈ candidates,
      first.effectiveValue = second.effectiveValue → first.fee = second.fee →
        first.longTermFee = second.longTermFee)
    {first : Int} (firstWaste_eq : firstWaste candidates = .ok first)
    (pruning : Pruning) (target costOfChange : Nat) :
    (Goal.above pruning target costOfChange first).Lossless candidates where
  positive := economic.positive
  added candidate member := by
    have waste_eq := (priced candidate member).exactWaste_eq
    have value_eq := economic.exact candidate member
    have le := longTerm_le candidate member
    omega
  bounded := exactWaste_nonneg_of_boundsWaste priced firstWaste_eq
  equals _ one oneMember other otherMember sameValue sameFee := by
    rw [(priced one oneMember).exactWaste_eq, (priced other otherMember).exactWaste_eq, sameFee,
      equals one oneMember other otherMember sameValue sameFee]

/-- The search's account of waste is the exact one. -/
theorem wasteOver_eq (economic : Economic candidates)
    (longTermFit : (longTermFees candidates : Int) ≤ greatestSigned) (target : Int)
    {part : List Candidate} (sublist : part.Sublist candidates) :
    totalWaste part + (worth part - target) = wasteOver target part := by
  have feesFit := (economic.subperm sublist.subperm).fees_le_amounts
  have amountsFit := (economic.subperm sublist.subperm).fits
  have partFit := longTermFees_sublist sublist
  rw [wasteOver, totalWaste_eq (by omega) (by omega)]

theorem longTermFees_le_amounts
    (longTerm_le : ∀ candidate ∈ candidates, candidate.longTermFee ≤ candidate.amount) :
    longTermFees candidates ≤ amounts candidates :=
  List.sum_le_sum longTerm_le

/-- Take candidates at one pair of rates, none of which costs more in the long
run than it is worth, and equals of which cost the same in the long run.  If the
search among them is exhausted and a part of them is in the window, a selection
is found, and it wastes no more than any part of them in the window. -/
theorem search_optimal {target costOfChange : Nat} {report : Report} {part : List Candidate}
    (priced : ∀ candidate ∈ candidates, PricedAt effective longTerm candidate)
    (positive : Positive candidates) (amountsFit : (amounts candidates : Int) ≤ greatestSigned)
    (longTerm_le : ∀ candidate ∈ candidates, candidate.longTermFee ≤ candidate.amount)
    (equals : ∀ first ∈ candidates, ∀ second ∈ candidates,
      first.effectiveValue = second.effectiveValue → first.fee = second.fee →
        first.longTermFee = second.longTermFee)
    (searched : search {} totalTries costOfChange candidates target = .ok report)
    (exhausted : report.exhausted = true) (subperm : part.Subperm candidates)
    (target_le : (target : Int) ≤ worth part) (le_limit : worth part ≤ target + costOfChange) :
    ∃ selected, select costOfChange candidates target = .ok selected ∧
      selected.Subperm candidates ∧ (target : Int) ≤ worth selected ∧
        worth selected ≤ target + costOfChange ∧
          ∀ other : List Candidate, other.Subperm candidates → (target : Int) ≤ worth other →
            worth other ≤ target + costOfChange →
              wasteOver target selected ≤ wasteOver target other := by
  have perm := largestFirst_perm candidates
  have economic := economic_of_priced priced positive amountsFit
  have ordered := economic.subperm perm.subperm
  have longTermFit : (longTermFees (largestFirst candidates) : Int) ≤ greatestSigned := by
    have le := longTermFees_le_amounts longTerm_le
    rw [longTermFees_perm perm]
    omega
  obtain ⟨_, first, first_eq, rfl⟩ := exists_explore positive economic.worth_fits searched
  have lossless : (Goal.above {} target costOfChange first).Lossless (largestFirst candidates) :=
    lossless_of_priced (fun _ member => priced _ (perm.subset member)) ordered
      (fun _ member => longTerm_le _ (perm.subset member))
      (fun _ oneMember _ otherMember =>
        equals _ (perm.subset oneMember) _ (perm.subset otherMember))
      first_eq {} target costOfChange
  obtain ⟨_, _, admits⟩ :=
    exists_admits positive economic.worth_fits subperm target_le le_limit {} first
  obtain ⟨selected, found⟩ :=
    explore_finds (sumsFit_of_economic ordered longTermFit target) exhausted admits
  have inWindow := explore_inWindow totalTries Best.inWindow_empty _ found
  refine ⟨selected, ?_, inWindow.sublist.subperm.trans perm.subperm, inWindow.target_le,
    inWindow.le_limit.trans (Goal.above_limit_le ..), ?_⟩
  · rw [select, searched, ok_bind, Report.selection, found]
  · intro other otherSubperm other_ge other_le
    obtain ⟨arranged, arrangedPerm, arrangedAdmits⟩ :=
      exists_admits positive economic.worth_fits otherSubperm other_ge other_le {} first
    have least := explore_least lossless exhausted found arrangedAdmits
    calc
      wasteOver target selected = totalWaste selected + (worth selected - target) :=
        (wasteOver_eq ordered longTermFit target inWindow.sublist).symm
      _ ≤ totalWaste arranged + (worth arranged - target) := least
      _ = wasteOver target arranged :=
        wasteOver_eq ordered longTermFit target arrangedAdmits.sublist
      _ = wasteOver target other := wasteOver_perm arrangedPerm target

/-- Two outputs that are worth the same, and one that is worth a third of that. -/
def twoEquals : List Utxo :=
  [{ outpoint := ⟨⟨Vector.replicate 32 0⟩, 0⟩, amount := 341 },
    { outpoint := ⟨⟨Vector.replicate 32 0⟩, 1⟩, amount := 341 },
    { outpoint := ⟨⟨Vector.replicate 32 0⟩, 2⟩, amount := 141 }]

/-- They cost twice as much now as in the long run. -/
def halvingFees : Fees :=
  { effective := ⟨1000⟩, longTerm := ⟨500⟩ }

theorem search_optimal_twoEquals :
    ∃ selected, select 10 (halvingFees.candidates 0 twoEquals) 400 = .ok selected ∧
      ∀ other : List Candidate, other.Subperm (halvingFees.candidates 0 twoEquals) →
        400 ≤ worth other → worth other ≤ 410 → wasteOver 400 selected ≤ wasteOver 400 other := by
  have prices : ∀ utxo ∈ twoEquals, halvingFees.Prices utxo := by
    have priced : economicCandidates halvingFees 0 twoEquals =
        .ok (halvingFees.candidates 0 twoEquals) := by
      decide +kernel
    exact (Fees.economicCandidates_eq_ok_iff.mp priced).1
  have ordered : largestFirst (halvingFees.candidates 0 twoEquals) =
      halvingFees.candidates 0 twoEquals :=
    largestFirst_of_sorted (by decide +kernel)
  have exhausted : (search {} totalTries 10 (halvingFees.candidates 0 twoEquals) 400).map
      Report.exhausted = .ok true := by
    rw [search, ordered]
    decide +kernel
  cases searched : search {} totalTries 10 (halvingFees.candidates 0 twoEquals) 400 with
  | error failure =>
      rw [searched] at exhausted
      cases exhausted
  | ok report =>
      rw [searched] at exhausted
      have economic : Candidate.Economic (halvingFees.candidates 0 twoEquals) :=
        Fees.economic_candidates (by decide)
      obtain ⟨selected, select_eq, _, _, _, least⟩ := search_optimal
        (fun _ member => Fees.pricedAt prices member) economic.positive economic.fits
        (by decide +kernel) (by decide +kernel) searched (Except.ok.inj exhausted)
        ((List.drop_sublist 1 _).subperm) (by decide +kernel) (by decide +kernel)
      exact ⟨selected, select_eq, least⟩

end Rates

end BranchAndBound

end CoinSelection
