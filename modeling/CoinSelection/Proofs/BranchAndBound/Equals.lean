import CoinSelection.Proofs.BranchAndBound.Irredundance
import CoinSelection.Proofs.BranchAndBound.Optimality
import CoinSelection.Proofs.BranchAndBound.Refusal

/-!
# Leaving out equals

The search leaves out a candidate behind its equal, one that is worth the same
and costs the same now.  An exchange of the two keeps a selection in the window
and without superfluous candidates, so a search that leaves out equals finds a
selection wherever one that tries them does.

What a selection wastes depends on the long-term fees as well, and equals may
differ in these.  If they do not, then both searches find selections of one
waste.  This is so from a rate of one satoshi per virtual byte on, since there
outputs of different sizes have different fees.  At lower rates the search may
miss the selection that wastes least.
-/

namespace CoinSelection

open Candidate Checked Outcome

/-! ## Fees of different sizes -/

/-- From a rate of one satoshi per virtual byte on, every virtual byte costs
something. -/
theorem FeeCalculator.exactFee_injective {calculator : FeeCalculator}
    (rate_ge : 1000 ≤ calculator.baseRate) : Function.Injective calculator.exactFee := by
  have exact (size : Nat) : calculator.exactFee size = calculator.baseRate * size / 1000 := by
    have size_le : size ≤ calculator.baseRate * size / 1000 := by
      rw [Nat.le_div_iff_mul_le (by decide), mul_comm size]
      exact Nat.mul_le_mul_right size rate_ge
    unfold exactFee
    rw [if_neg]
    omega
  have increasing : StrictMono calculator.exactFee := by
    apply strictMono_nat_of_lt_succ
    intro size
    rw [exact, exact, Nat.mul_succ]
    omega
  exact increasing.injective

/-- At such a rate equals have one size, so they cost the same in the long run. -/
theorem Candidate.PricedAt.longTermFee_eq_of_fee_eq {effective longTerm : FeeCalculator}
    {first second : Candidate} (rate_ge : 1000 ≤ effective.baseRate)
    (firstPriced : PricedAt effective longTerm first)
    (secondPriced : PricedAt effective longTerm second) (sameFee : first.fee = second.fee) :
    first.longTermFee = second.longTermFee := by
  rw [firstPriced.fee_eq, secondPriced.fee_eq] at sameFee
  have sameSize : first.utxo.virtualSize = second.utxo.virtualSize :=
    FeeCalculator.exactFee_injective rate_ge sameFee
  rw [firstPriced.longTermFee_eq, secondPriced.longTermFee_eq, FeeCalculator.exactInputFee,
    FeeCalculator.exactInputFee, sameSize]

namespace BranchAndBound

/-! ## Irredundant selections -/

section Irredundant

variable {target : Int} {selected added : List Candidate} {previous candidate : Candidate}
  {later earlier : List Decision}

/-- A selection without superfluous candidates does not extend one that reaches
the target. -/
theorem Irredundant.eq_nil_of_le (irredundant : Irredundant target (selected ++ added))
    (positive : Positive added) (reached : target ≤ worth selected) : added = [] := by
  cases added with
  | nil => rfl
  | cons candidate rest =>
      have short := irredundant candidate (by simp)
      have rest_nonneg := (positive.subset (List.subset_cons_self candidate rest)).worth_nonneg
      rw [worth_append, worth_cons] at short
      omega

/-- Exchanging candidates of one value makes no other superfluous. -/
theorem irredundant_exchange (sameValue : previous.effectiveValue = candidate.effectiveValue)
    (irredundant : Irredundant target
      (chosen (later ++ (candidate, true) :: (previous, false) :: earlier))) :
    Irredundant target (chosen (exchange later previous candidate earlier)) := by
  have before : chosen (later ++ (candidate, true) :: (previous, false) :: earlier) =
      chosen earlier ++ candidate :: chosen later := by
    simp [chosen_append]
  have after : chosen (exchange later previous candidate earlier) =
      chosen earlier ++ previous :: chosen later := by
    simp [exchange, chosen_append]
  have worth_eq : worth (chosen earlier ++ previous :: chosen later) =
      worth (chosen earlier ++ candidate :: chosen later) := by
    simp [sameValue]
  rw [before] at irredundant
  rw [after]
  intro other member
  rw [worth_eq]
  by_cases exchanged : other = previous
  · rw [exchanged, sameValue]
    apply irredundant
    simp
  · apply irredundant
    simp only [List.mem_append, List.mem_cons, exchanged, false_or] at member ⊢
    exact member.imp_right .inr

end Irredundant

/-! ## Searches at two rates -/

/-- Candidates that are worth the same and cost the same now also cost the same
in the long run. -/
def EqualsAgree (candidates : List Candidate) : Prop :=
  ∀ first ∈ candidates, ∀ second ∈ candidates,
    first.effectiveValue = second.effectiveValue → first.fee = second.fee →
      first.longTermFee = second.longTermFee

section Rates

variable {effective longTerm : FeeCalculator} {candidates part selected : List Candidate}
  {pruning : Pruning} {tries target costOfChange : Nat} {report : Report}

/-- The search's account of waste is exact at two rates. -/
theorem wasteOver_eq_of_priced (priced : ∀ candidate ∈ part, PricedAt effective longTerm candidate)
    (target : Int) : totalWaste part + (worth part - target) = wasteOver target part := by
  have waste_eq : totalWaste part = fees part - longTermFees part := by
    induction part with
    | nil => rfl
    | cons candidate rest ih =>
        rw [List.forall_mem_cons] at priced
        rw [totalWaste_cons, ih priced.2, priced.1.exactWaste_eq, fees_cons, longTermFees_cons]
        omega
  rw [wasteOver, waste_eq]

/-- What a search finds is in the window, and no candidate of it is
superfluous. -/
theorem found_of_search
    (searched : search pruning tries costOfChange candidates target = .ok report)
    (found : report.best.selection? = some selected) :
    selected.Sublist (largestFirst candidates) ∧ (target : Int) ≤ worth selected ∧
      worth selected ≤ target + costOfChange ∧ Irredundant target selected := by
  obtain ⟨positive, fits⟩ := positive_of_search searched
  obtain ⟨_, first, _, rfl⟩ := exists_explore positive fits searched
  have inWindow := explore_inWindow tries Best.inWindow_empty _ found
  exact ⟨inWindow.sublist, inWindow.target_le, inWindow.le_limit.trans (Goal.above_limit_le ..),
    explore_irredundant (largestFirst_pairwise candidates) tries _ found⟩

/-- An exhausted search that tries equals, or that is one among candidates of which
equals cost the same in the long run, finds a selection that wastes no more than
any in the window without superfluous candidates. -/
theorem search_leastIrredundant
    (priced : ∀ candidate ∈ candidates, PricedAt effective longTerm candidate)
    (equals : pruning.equals = true → EqualsAgree candidates)
    (searched : search pruning tries costOfChange candidates target = .ok report)
    (exhausted : report.exhausted = true) (found : report.best.selection? = some selected)
    (sublist : part.Sublist (largestFirst candidates)) (target_le : (target : Int) ≤ worth part)
    (le_limit : worth part ≤ target + costOfChange) (irredundant : Irredundant target part) :
    wasteOver target selected ≤ wasteOver target part := by
  have perm := largestFirst_perm candidates
  have ordered : ∀ candidate ∈ largestFirst candidates, PricedAt effective longTerm candidate :=
    fun candidate member => priced candidate (perm.subset member)
  have selectedSublist := (found_of_search searched found).1
  obtain ⟨positive, fits⟩ := positive_of_search searched
  obtain ⟨_, first, first_eq, rfl⟩ := exists_explore positive fits searched
  have preserves : (Goal.above pruning target costOfChange first).Preserves
      (largestFirst candidates) (Irredundant target) := by
    constructor
    · exact positive.subset perm.subset
    · exact exactWaste_nonneg_of_boundsWaste ordered first_eq
    · intro skips one oneMember other otherMember sameValue sameFee
      rw [(ordered one oneMember).exactWaste_eq, (ordered other otherMember).exactWaste_eq, sameFee,
        equals skips one (perm.subset oneMember) other (perm.subset otherMember) sameValue sameFee]
    · intro hit added subset reached isWanted
      -- A hit is not extended, so the long-term fees of what could be added play no part.
      have addedPositive := (positive.subset perm.subset).subset subset
      obtain rfl := isWanted.eq_nil_of_le addedPositive reached
      exact le_rfl
    · exact irredundant_exchange
  have partFits : worth part ≤ greatestSigned :=
    (positive.worth_le (sublist.subperm.trans perm.subperm)).trans fits
  have admits : (Goal.above pruning target costOfChange first).Admits (largestFirst candidates)
      part :=
    ⟨sublist, target_le, Goal.le_above_limit pruning first partFits le_limit⟩
  have least := explore_leastWanted preserves exhausted found admits irredundant
  calc
    wasteOver target selected = totalWaste selected + (worth selected - target) :=
      (wasteOver_eq_of_priced (fun _ member => ordered _ (selectedSublist.subset member)) _).symm
    _ ≤ totalWaste part + (worth part - target) := least
    _ = wasteOver target part :=
      wasteOver_eq_of_priced (fun _ member => ordered _ (sublist.subset member)) _

/-- Take candidates at two rates among which the search is exhausted, whether it
leaves out equals or tries them.  If it finds a selection when it tries them,
then branch and bound finds one that wastes no less, and that wastes the same if
equals cost the same in the long run.  From a rate of one satoshi per virtual
byte on they do. -/
theorem search_equals {reference : Report} {expected : List Candidate}
    (priced : ∀ candidate ∈ candidates, PricedAt effective longTerm candidate)
    (searched : search {} totalTries costOfChange candidates target = .ok report)
    (exhausted : report.exhausted = true)
    (compared : search { equals := false } totalTries costOfChange candidates target =
      .ok reference)
    (comparedExhausted : reference.exhausted = true)
    (expectedFound : reference.selection = .ok expected) :
    ∃ selected, select costOfChange candidates target = .ok selected ∧
      wasteOver target expected ≤ wasteOver target selected ∧
      (EqualsAgree candidates → wasteOver target selected = wasteOver target expected) ∧
      (1000 ≤ effective.baseRate →
        wasteOver target selected = wasteOver target expected) := by
  rw [Report.selection_eq_ok_iff] at expectedFound
  obtain ⟨expectedSublist, expected_ge, expected_le, expectedIrredundant⟩ :=
    found_of_search compared expectedFound
  have expectedSubperm := expectedSublist.subperm.trans (largestFirst_perm candidates).subperm
  obtain ⟨selected, found⟩ :=
    search_finds searched exhausted expectedSubperm expected_ge expected_le
  obtain ⟨sublist, selected_ge, selected_le, irredundant⟩ := found_of_search searched found
  have no_less : wasteOver target expected ≤ wasteOver target selected :=
    search_leastIrredundant priced (fun skips => absurd skips Bool.false_ne_true) compared
      comparedExhausted expectedFound sublist selected_ge selected_le irredundant
  have same (equals : EqualsAgree candidates) :
      wasteOver target selected = wasteOver target expected := by
    have no_more := search_leastIrredundant priced (fun _ => equals) searched exhausted found
      expectedSublist expected_ge expected_le expectedIrredundant
    exact le_antisymm no_more no_less
  refine ⟨selected, select_eq_ok_iff.mpr ⟨report, searched, found⟩, no_less, same, ?_⟩
  intro rate_ge
  apply same
  intro first firstMember second secondMember _ sameFee
  exact (priced first firstMember).longTermFee_eq_of_fee_eq rate_ge (priced second secondMember)
    sameFee

/-- Both searches for one of two equals and a third output end with the same
waste. -/
theorem search_equals_twoEquals :
    ∃ selected expected, select 10 (halvingFees.candidates 0 twoEquals) 400 = .ok selected ∧
      (search { equals := false } totalTries 10 (halvingFees.candidates 0 twoEquals) 400 >>=
        Report.selection) = .ok expected ∧
      wasteOver 400 selected = wasteOver 400 expected := by
  have priced : economicCandidates halvingFees 0 twoEquals =
      .ok (halvingFees.candidates 0 twoEquals) := by
    decide +kernel
  have prices := (Fees.economicCandidates_eq_ok_iff.mp priced).1
  have ordered : largestFirst (halvingFees.candidates 0 twoEquals) =
      halvingFees.candidates 0 twoEquals :=
    largestFirst_of_sorted (by decide +kernel)
  have exhausted : (search {} totalTries 10 (halvingFees.candidates 0 twoEquals) 400).map
      Report.exhausted = .ok true := by
    rw [search, ordered]
    decide +kernel
  have compared : (search { equals := false } totalTries 10
      (halvingFees.candidates 0 twoEquals) 400).map
        (fun report => (report.exhausted, report.selection)) =
      .ok (true, .ok ((halvingFees.candidates 0 twoEquals).drop 1)) := by
    rw [search, ordered]
    decide +kernel
  obtain ⟨report, searched, exhausted⟩ := map_eq_ok_iff.mp exhausted
  obtain ⟨reference, compared, ended⟩ := map_eq_ok_iff.mp compared
  obtain ⟨comparedExhausted, expectedFound⟩ := Prod.mk.inj ended
  obtain ⟨selected, select_eq, _, _, same⟩ :=
    search_equals (fun _ member => Fees.pricedAt prices member) searched exhausted compared
      comparedExhausted expectedFound
  refine ⟨selected, _, select_eq, ?_, same (by decide)⟩
  rw [compared, ok_bind, expectedFound]

end Rates

/-! ## Equals of different sizes -/

/-- Two outputs of the same amount, one of which takes eight virtual bytes more
to spend. -/
def unevenOutputs : List Utxo :=
  [{ outpoint := ⟨⟨Vector.replicate 32 0⟩, 0⟩, amount := 1000 },
    { outpoint := ⟨⟨Vector.replicate 32 0⟩, 1⟩, amount := 1000, satisfactionWeight := 36 }]

/-- At a tenth of a satoshi per virtual byte they cost the same now. -/
def lowFees : Fees :=
  { effective := ⟨100⟩, longTerm := ⟨1000⟩ }

/-- Both searches are exhausted.  The one that tries equals finds the larger
output, which wastes less since it saves more in the long run. -/
theorem search_equals_lossy_unevenOutputs :
    economicCandidates lowFees 0 unevenOutputs = .ok (lowFees.candidates 0 unevenOutputs) ∧
      (search {} totalTries 0 (lowFees.candidates 0 unevenOutputs) 996).map Report.exhausted =
        .ok true ∧
      select 0 (lowFees.candidates 0 unevenOutputs) 996 =
        .ok [lowFees.candidate unevenOutputs[0] 0] ∧
      (search { equals := false } totalTries 0 (lowFees.candidates 0 unevenOutputs) 996).map
          (fun report => (report.exhausted, report.selection)) =
        .ok (true, .ok [lowFees.candidate unevenOutputs[1] 1]) ∧
      wasteOver 996 [lowFees.candidate unevenOutputs[1] 1] <
        wasteOver 996 [lowFees.candidate unevenOutputs[0] 0] := by
  have ordered : largestFirst (lowFees.candidates 0 unevenOutputs) =
      lowFees.candidates 0 unevenOutputs :=
    largestFirst_of_sorted (by decide +kernel)
  refine ⟨by decide +kernel, ?_, ?_, ?_, by decide +kernel⟩
  · rw [search, ordered]
    decide +kernel
  · rw [select, search, ordered]
    decide +kernel
  · rw [search, ordered]
    decide +kernel

end BranchAndBound

end CoinSelection
