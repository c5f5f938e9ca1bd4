import CoinSelection.Proofs.Answers
import CoinSelection.Proofs.BranchAndBound.Renumbering
import CoinSelection.Proofs.Knapsack.Renumbering

/-!
# Outputs that cannot influence a selection

An output that the filter rejects, or that is not worth its fee, leaves no
candidate.  Putting such outputs anywhere into a pool only moves the positions
of the candidates apart.  Searches do not look at positions, and the selected
outputs are listed by the order of theirs, so the answer is the same, and so is
the number of words drawn.  Outpoints play no part in this.
-/

namespace CoinSelection

open Checked Outcome

/-! ## Positions further apart -/

section Positions

variable {numbering : Nat → Nat}

/-- Numbers in the same order leave candidates in the order of the offer. -/
theorem Selection.offeredOrder_renumber (increasing : StrictMono numbering)
    (candidates : List Candidate) :
    offeredOrder (candidates.map (Candidate.renumber numbering)) =
      (offeredOrder candidates).map (Candidate.renumber numbering) := by
  refine (List.map_mergeSort fun first _ second _ => ?_).symm
  exact decide_eq_decide.mpr increasing.le_iff_le.symm

theorem Selection.ofCandidates_renumber (increasing : StrictMono numbering)
    (candidates : List Candidate) (target : Nat) (algorithm : Algorithm) :
    ofCandidates (candidates.map (Candidate.renumber numbering)) target algorithm =
      ofCandidates candidates target algorithm := by
  simp only [ofCandidates, offeredOrder_renumber increasing, List.map_map]
  rfl

/-- A strategy answers the same, and draws as many words, under numbers in the
same order. -/
theorem Strategy.select_renumber (increasing : StrictMono numbering) (strategy : Strategy)
    (source : RandomSource) (candidates : List Candidate) (target : Nat) :
    strategy.select source (candidates.map (Candidate.renumber numbering)) target =
      strategy.select source candidates target := by
  induction strategy with
  | knapsack minimumChange =>
      rw [select, Knapsack.select_renumber, bind_map_left, select]
      simp only [Selection.ofCandidates_renumber increasing]
  | branchAndBound costOfChange fallback ih =>
      rw [select, BranchAndBound.select_renumber, select]
      cases BranchAndBound.select costOfChange candidates target with
      | ok chosen => exact congrArg Draw.ofOutcome (Selection.ofCandidates_renumber increasing ..)
      | error failure => simp only [Except.map, ih]

end Positions

/-! ## Lists with more entries -/

/-- The longer list is the shorter one with spare entries put in anywhere. -/
inductive Padded {α : Type} (spare : α → Prop) : List α → List α → Prop
  | nil : Padded spare [] []
  | keep (entry : α) {shorter longer : List α} (rest : Padded spare shorter longer) :
      Padded spare (entry :: shorter) (entry :: longer)
  | insert {entry : α} (isSpare : spare entry) {shorter longer : List α}
      (rest : Padded spare shorter longer) : Padded spare shorter (entry :: longer)

namespace Padded

variable {α : Type} {spare : α → Prop} {shorter longer : List α}

theorem mem_or (padded : Padded spare shorter longer) {entry : α} (member : entry ∈ longer) :
    entry ∈ shorter ∨ spare entry := by
  induction padded with
  | nil => cases member
  | keep first rest ih =>
      rcases List.mem_cons.mp member with rfl | later
      · exact .inl List.mem_cons_self
      · exact (ih later).imp_left (List.mem_cons_of_mem first)
  | insert isSpare rest ih =>
      rcases List.mem_cons.mp member with rfl | later
      · exact .inr isSpare
      · exact ih later

theorem imp {other : α → Prop} (padded : Padded spare shorter longer)
    (implies : ∀ entry, spare entry → other entry) : Padded other shorter longer := by
  induction padded with
  | nil => exact .nil
  | keep entry rest ih => exact .keep entry ih
  | insert isSpare rest ih => exact .insert (implies _ isSpare) ih

theorem sublist (padded : Padded spare shorter longer) : shorter.Sublist longer := by
  induction padded with
  | nil => exact .slnil
  | keep entry rest ih => exact ih.cons_cons entry
  | insert isSpare rest ih => exact ih.cons _

/-- Spare entries that a test lets pass are spare among those that it does. -/
theorem filter (padded : Padded spare shorter longer) (test : α → Bool) :
    Padded (fun entry => test entry = true ∧ spare entry) (shorter.filter test)
      (longer.filter test) := by
  induction padded with
  | nil => exact .nil
  | keep entry rest ih =>
      rw [List.filter_cons, List.filter_cons]
      split
      · exact .keep entry ih
      · exact ih
  | insert isSpare rest ih =>
      rw [List.filter_cons]
      split
      · rename_i passes
        exact .insert ⟨passes, isSpare⟩ ih
      · exact ih

end Padded

/-! ## Irrelevant outputs -/

/-- A pass can tell that an output is of no use to it: the filter rejects the
output, or accepts it and it is not worth its fee. -/
inductive Irrelevant (filter : Filter) (fees : Fees) (utxo : Utxo) : Prop
  | rejected (rejects : filter.accepts utxo = .ok false)
  | worthless (accepts : filter.accepts utxo = .ok true) {candidate : Candidate}
      (priced : Candidate.price fees.effective fees.longTerm utxo = .ok candidate)
      (worthless : candidate.effectiveValue ≤ 0)

section Irrelevant

variable {filter : Filter} {fees : Fees} {utxo : Utxo}

theorem Irrelevant.countFits (irrelevant : Irrelevant filter fees utxo) :
    filter.CountFits utxo := by
  cases irrelevant with
  | rejected rejects => exact (Filter.accepts_eq_ok_iff.mp rejects).1
  | worthless accepts priced worthless => exact (Filter.accepts_eq_ok_iff.mp accepts).1

/-- An irrelevant output that the filter admits can be priced, and it is not
worth spending. -/
theorem Irrelevant.of_admitted (irrelevant : Irrelevant filter fees utxo)
    (admitted : filter.admits utxo = true) :
    fees.Prices utxo ∧ (fees.candidate utxo 0).effectiveValue ≤ 0 := by
  cases irrelevant with
  | rejected rejects =>
      have rejected := (Filter.accepts_eq_ok_iff.mp rejects).2
      rw [admitted] at rejected
      cases rejected
  | worthless accepts priced worthless =>
      obtain ⟨prices, rfl⟩ := Fees.price_eq_ok_iff.mp priced
      exact ⟨prices, worthless⟩

end Irrelevant

/-! ## The same candidates -/

/-- Shift the numbers up to a position so that it becomes a later one, and
number what follows as before. -/
def renumberedUpTo (position later : Nat) (numbering : Nat → Nat) (number : Nat) : Nat :=
  if number ≤ position then number + (later - position) else numbering number

section Numbering

variable {position later : Nat} {numbering : Nat → Nat}

theorem renumberedUpTo_self (numbering : Nat → Nat) (behind : position ≤ later) :
    renumberedUpTo position later numbering position = later := by
  rw [renumberedUpTo, if_pos le_rfl, Nat.add_sub_cancel' behind]

theorem renumberedUpTo_of_lt {number : Nat} (after : position < number) :
    renumberedUpTo position later numbering number = numbering number :=
  if_neg (not_le.mpr after)

theorem renumberedUpTo_strictMono (increasing : StrictMono numbering) (behind : position ≤ later)
    (later_lt : later < numbering (position + 1)) :
    StrictMono (renumberedUpTo position later numbering) := by
  intro first second less
  unfold renumberedUpTo
  split_ifs with firstBefore secondBefore
  · omega
  · have after : numbering (position + 1) ≤ numbering second :=
      increasing.monotone (Nat.lt_of_not_le secondBefore)
    omega
  · omega
  · exact increasing less

end Numbering

section Candidates

variable {fees : Fees} {shorter longer : List Utxo}

/-- Candidates are numbered from the position of the first output. -/
theorem Fees.position_le {position : Nat} {candidate : Candidate}
    (member : candidate ∈ fees.candidates position shorter) : position ≤ candidate.position := by
  simp only [candidates, List.mem_filter, List.mem_map] at member
  obtain ⟨⟨entry, entryMember, rfl⟩, _⟩ := member
  exact (List.mem_zipIdx entryMember).1

/-- Outputs that are not worth spending only move the positions apart. -/
theorem Fees.candidates_padded
    (padded : Padded (fun utxo => (fees.candidate utxo 0).effectiveValue ≤ 0) shorter longer)
    {position later : Nat} (behind : position ≤ later) :
    ∃ numbering : Nat → Nat, StrictMono numbering ∧ later ≤ numbering position ∧
      fees.candidates later longer =
        (fees.candidates position shorter).map (Candidate.renumber numbering) := by
  induction padded generalizing position later with
  | nil => exact ⟨fun number => number + later, fun _ _ less => by simpa using less, by simp, rfl⟩
  | insert worthless rest ih =>
      obtain ⟨numbering, increasing, later_le, candidates_eq⟩ := ih (Nat.le_succ_of_le behind)
      refine ⟨numbering, increasing, Nat.le_of_succ_le later_le, ?_⟩
      rw [candidates_cons, if_neg (not_lt.mpr worthless), candidates_eq]
  | @keep utxo shorter longer rest ih =>
      obtain ⟨numbering, increasing, later_le, candidates_eq⟩ := ih (Nat.succ_le_succ behind)
      refine ⟨renumberedUpTo position later numbering, renumberedUpTo_strictMono increasing behind
        later_le, (renumberedUpTo_self numbering behind).ge, ?_⟩
      have first_eq : fees.candidate utxo later = (fees.candidate utxo position).renumber
          (renumberedUpTo position later numbering) := by
        simp [Candidate.renumber, candidate, renumberedUpTo_self numbering behind]
      have others_eq : (fees.candidates (position + 1) shorter).map (Candidate.renumber numbering) =
          (fees.candidates (position + 1) shorter).map
            (Candidate.renumber (renumberedUpTo position later numbering)) := by
        refine List.map_congr_left fun candidate member => ?_
        rw [Candidate.renumber, Candidate.renumber, renumberedUpTo_of_lt (position_le member)]
      rw [candidates_cons, candidates_cons, candidates_eq, others_eq, first_eq]
      split <;> rfl

end Candidates

/-! ## The same answer -/

section Request

variable {source : RandomSource} {target : Nat} {pool longer : List Utxo} {filter : Filter}
  {options : Options} {fees : Fees}

theorem Filter.accepted_padded (padded : Padded (Irrelevant filter fees) pool longer)
    (accepts : filter.accepted pool = .ok (pool.filter filter.admits)) :
    filter.accepted longer = .ok (longer.filter filter.admits) := by
  have counts := (Filter.accepted_eq_ok_iff.mp accepts).1
  refine Filter.accepted_eq_ok_iff.mpr ⟨fun utxo member => ?_, rfl⟩
  rcases padded.mem_or member with old | irrelevant
  · exact counts utxo old
  · exact irrelevant.countFits

/-- Everything fits with irrelevant outputs too, if the total of the accepted
ones does. -/
theorem Ready.padded (padded : Padded (Irrelevant filter fees) pool longer)
    (ready : Ready target (pool.filter filter.admits) fees options)
    (fits : (totalAmount (longer.filter filter.admits) : Int) ≤ greatestSigned) :
    Ready target (longer.filter filter.admits) fees options where
  nonempty empty := by
    have part := (padded.filter filter.admits).sublist
    rw [empty] at part
    exact ready.nonempty (List.sublist_nil.mp part)
  fits
  product := ready.product
  targetFits := ready.targetFits
  prices utxo member := by
    rcases (padded.filter filter.admits).mem_or member with old | ⟨admitted, irrelevant⟩
    · exact ready.prices utxo old
    · exact (irrelevant.of_admitted admitted).1
  pricesChange := ready.pricesChange

/-- A request that selects outputs selects the same ones, in the same order and
with the same totals, and draws as many words, from a pool with irrelevant
outputs put in anywhere, if the accepted amounts still add up to a signed
word. -/
theorem select_ignores_irrelevant {drawn later : Nat} {selection : Selection}
    (padded : Padded (Irrelevant filter (options.fees (options.paysFee filter))) pool longer)
    (fits : (totalAmount (longer.filter filter.admits) : Int) ≤ greatestSigned)
    (finished : (select source target pool filter options).run drawn = (.ok selection, later)) :
    (select source target longer filter options).run drawn = (.ok selection, later) := by
  have validated := validate_of_selects finished
  have accepts := accepted_of_selects finished
  have longerAccepts := Filter.accepted_padded padded accepts
  rcases Nat.eq_zero_or_pos target with rfl | positive
  · rw [select_run_of_zero validated accepts] at finished
    rw [select_run_of_zero validated longerAccepts, finished]
  have ready := (answered_of_selects positive finished).ready
  rw [← finished, ready.select_run validated accepts positive,
    (ready.padded padded fits).select_run validated longerAccepts positive]
  have worthless :
      Padded (fun utxo => ((options.passFees filter).candidate utxo 0).effectiveValue ≤ 0)
        (pool.filter filter.admits) (longer.filter filter.admits) :=
    (padded.filter filter.admits).imp fun utxo ⟨admitted, irrelevant⟩ =>
      (irrelevant.of_admitted admitted).2
  obtain ⟨numbering, increasing, _, candidates_eq⟩ := Fees.candidates_padded worthless (le_refl 0)
  rw [candidates_eq, Strategy.select_renumber increasing]

/-- An output worth less than its fee, at the outpoint of another one. -/
def dust : Utxo :=
  { outpoint := ⟨⟨Vector.replicate 32 0⟩, 0⟩, amount := 30 }

theorem select_ignores_irrelevant_dust :
    (select (fun _ => 0) 500 (dust :: twoOutputs) {} relayOptions).run 0 =
      (.ok
        { selected := twoOutputs.take 1
          selectedValue := 600
          excessValue := 100
          inputFees := 41
          algorithm := .branchAndBound },
        0) := by
  have priced : Candidate.price (relayOptions.fees true).effective (relayOptions.fees true).longTerm
      dust = .ok ((relayOptions.fees true).candidate dust 0) := by
    decide +kernel
  have irrelevant : Irrelevant {} (relayOptions.fees (relayOptions.paysFee {})) dust :=
    .worthless rfl priced (by decide +kernel)
  exact select_ignores_irrelevant (.insert irrelevant (.keep _ (.keep _ .nil))) (by decide +kernel)
    (select_twoOutputs (fun _ => 0) 0)

end Request

end CoinSelection
