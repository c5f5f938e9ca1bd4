import CoinSelection.Proofs.Strategy

/-!
# What the knapsack prefers

Before anything is left to chance the knapsack looks for a candidate that meets
the target, for smaller candidates that meet it together, and, if these do not
reach it, for the smallest larger candidate.  Whatever words a source has, it
finds the first of these that there is, and draws none of them.  Candidates of
the same value are told apart by their outpoints.
-/

namespace CoinSelection

open Candidate Checked Outcome

/-! ## The least of some candidates -/

namespace Candidate

/-- One of the candidates has a property, and comes before every other one that
has it. -/
structure Least (eligible : Candidate → Prop) (candidates : List Candidate) (least : Candidate) :
    Prop where
  member : least ∈ candidates
  qualifies : eligible least
  before : ∀ other ∈ candidates, eligible other → other ≠ least → byValue least other = .lt

/-- There is only one. -/
theorem Least.unique {eligible : Candidate → Prop} {candidates : List Candidate}
    {first second : Candidate} (firstLeast : Least eligible candidates first)
    (secondLeast : Least eligible candidates second) : first = second := by
  by_contra ne
  have before := firstLeast.before second secondLeast.member secondLeast.qualifies (Ne.symm ne)
  have after := secondLeast.before first firstLeast.member firstLeast.qualifies ne
  exact absurd (Std.OrientedCmp.gt_of_lt before) (by simp [after])

/-- Where outpoints are distinct, it is enough that no other candidate comes
before it. -/
theorem least_of_isLE {eligible : Candidate → Prop} {candidates : List Candidate}
    {least : Candidate}
    (distinct : (candidates.map fun candidate => candidate.utxo.outpoint).Nodup)
    (member : least ∈ candidates) (qualifies : eligible least)
    (isLE : ∀ other ∈ candidates, eligible other → (byValue least other).isLE = true) :
    Least eligible candidates least where
  member := member
  qualifies := qualifies
  before other otherMember otherQualifies ne := by
    have notAfter := isLE other otherMember otherQualifies
    cases order : byValue least other with
    | lt => rfl
    | gt => simp [order] at notAfter
    | eq =>
        rw [byValue, compareLex_eq_eq] at order
        have outpoint_eq := OutPoint.compare_eq_eq_iff.mp order.2
        exact (ne (List.inj_on_of_nodup_map distinct otherMember member outpoint_eq.symm)).elim

end Candidate

/-! ## What is found -/

namespace Knapsack

section Found

variable {target bound : Int} {candidates : List Candidate} {found : Candidate}

/-- In the order of a search the first candidate that meets the target has the
lowest outpoint of those that do. -/
theorem least_of_find?
    (distinct : (candidates.map fun candidate => candidate.utxo.outpoint).Nodup)
    (search : (largestFirst candidates).find? (fun candidate => candidate.effectiveValue = target) =
      some found) :
    Least (fun candidate => candidate.effectiveValue = target) candidates found := by
  obtain ⟨meets, before, after, ordered_eq, others⟩ := List.find?_eq_some_iff_append.mp search
  have perm := largestFirst_perm candidates
  have ordered := largestFirst_pairwise candidates
  rw [ordered_eq] at perm ordered
  have foundFirst := (List.pairwise_append.mp ordered).2.1
  rw [decide_eq_true_eq] at meets
  refine least_of_isLE distinct (perm.subset (by simp)) meets fun other member otherMeets => ?_
  rcases List.mem_append.mp (perm.symm.subset member) with earlier | later
  · exact absurd otherMeets (by simpa using others other earlier)
  · cases later with
    | head => simp [Std.ReflCmp.compare_self]
    | tail _ later =>
        have same : found.effectiveValue = other.effectiveValue := meets.trans otherMeets.symm
        have before_other := List.rel_of_pairwise_cons foundFirst later
        rcases precedes_iff.mp before_other with less | ⟨_, outpoint_le⟩
        · exact (less.ne same.symm).elim
        · simpa [byValue, compareLex, compareOn, same] using outpoint_le

/-- The larger candidate of a division is the least of those that reach the
bound. -/
theorem least_larger (distinct : (candidates.map fun candidate => candidate.utxo.outpoint).Nodup)
    (large : ∃ candidate ∈ candidates, bound ≤ candidate.effectiveValue) :
    ∃ larger, (dividedAt bound (largestFirst candidates)).larger = some larger ∧
      Least (fun candidate => bound ≤ candidate.effectiveValue) candidates larger := by
  have perm := largestFirst_perm candidates
  rcases larger_dividedAt bound (largestFirst candidates) with
    ⟨-, small⟩ | ⟨least, larger_eq, member, reaches, isLE⟩
  · obtain ⟨candidate, member, reaches⟩ := large
    exact absurd reaches (not_le.mpr (small candidate (perm.symm.subset member)))
  · refine ⟨least, larger_eq, least_of_isLE distinct (perm.subset member) reaches ?_⟩
    intro other otherMember otherReaches
    exact isLE other (perm.symm.subset otherMember) otherReaches

end Found

end Knapsack

/-! ## The order of preference -/

/-- The candidates worth less than a bound, in the order of a search. -/
def Candidate.lowerThan (bound : Int) (candidates : List Candidate) : List Candidate :=
  (largestFirst candidates).filter fun candidate => candidate.effectiveValue < bound

namespace Strategy

/-- A target with the least change that should be left, as far as a signed word
goes. -/
def withChange (target minimumChange : Nat) : Int :=
  min ((target : Int) + minimumChange) greatestSigned

/-- The knapsack decides on these candidates, in the order of its search, and
draws nothing.  It selects them, or it aborts with an overflow because a total of
theirs is no word. -/
structure Decides (source : RandomSource) (minimumChange : Nat) (candidates : List Candidate)
    (target drawn : Nat) (chosen : List Candidate) : Prop where
  chooses : (Knapsack.select source minimumChange candidates target).run drawn = (.ok chosen, drawn)
  selects : amounts chosen < wordBound → fees chosen < wordBound →
    ((Strategy.knapsack minimumChange).select source candidates target).run drawn =
      (.ok (.exact chosen target .knapsack), drawn)
  overflows : ¬ (amounts chosen < wordBound ∧ fees chosen < wordBound) →
    ((Strategy.knapsack minimumChange).select source candidates target).run drawn =
      (abort (.overflow .add), drawn)

section Preference

variable {source : RandomSource} {minimumChange target drawn : Nat}
  {candidates chosen : List Candidate}

theorem decides_of_run
    (run_eq : (Knapsack.select source minimumChange candidates target).run drawn =
      (.ok chosen, drawn)) : Decides source minimumChange candidates target drawn chosen := by
  have totals : ((Strategy.knapsack minimumChange).select source candidates target).run drawn =
      (Selection.ofCandidates chosen target .knapsack, drawn) := by
    rw [select, Draw.run_bind_of_ok run_eq, Draw.run_ofOutcome]
  rw [Selection.ofCandidates_eq] at totals
  constructor
  · exact run_eq
  · intro amountsFit feesFit
    rwa [if_pos ⟨amountsFit, feesFit⟩] at totals
  · intro tooLarge
    rwa [if_neg tooLarge] at totals

/-- Before anything is drawn the knapsack selects the candidate with the lowest
outpoint that meets the target; if none meets it, all candidates below the target
and its change if these meet it together; and if these do not reach it, the
smallest of the others. -/
theorem select_knapsack_preference (source : RandomSource) (minimumChange drawn : Nat)
    (positive : Positive candidates) (fits : worth candidates ≤ greatestSigned)
    (distinct : (candidates.map fun candidate => candidate.utxo.outpoint).Nodup)
    (targetFits : (target : Int) ≤ greatestSigned) :
    ((∃ candidate ∈ candidates, candidate.effectiveValue = target) →
      ∃ found, Least (fun candidate => candidate.effectiveValue = target) candidates found ∧
        Decides source minimumChange candidates target drawn [found]) ∧
    ((∀ candidate ∈ candidates, candidate.effectiveValue ≠ target) →
      worth (lowerThan (withChange target minimumChange) candidates) = target →
        Decides source minimumChange candidates target drawn
          (lowerThan (withChange target minimumChange) candidates)) ∧
    ((∀ candidate ∈ candidates, candidate.effectiveValue ≠ target) →
      worth (lowerThan (withChange target minimumChange) candidates) < target →
      (∃ candidate ∈ candidates, withChange target minimumChange ≤ candidate.effectiveValue) →
        ∃ larger,
          Least (fun candidate => withChange target minimumChange ≤ candidate.effectiveValue)
            candidates larger ∧
          Decides source minimumChange candidates target drawn [larger]) := by
  have perm := largestFirst_perm candidates
  rcases Knapsack.divide_all target (withChange target minimumChange)
      (positive.subset perm.subset) ((worth_perm perm).trans_le fits) with
    ⟨found, search, divided⟩ | ⟨others, divided⟩
  · have least := Knapsack.least_of_find? distinct search
    refine ⟨fun _ => ⟨found, least, ?_⟩, fun others => ?_, fun others => ?_⟩
    · exact decides_of_run (Knapsack.select_run_of_found targetFits divided drawn)
    · exact (others found least.member least.qualifies).elim
    · exact (others found least.member least.qualifies).elim
  · have run_eq : (Knapsack.select source minimumChange candidates target).run drawn = _ :=
      Knapsack.select_run_of_divided targetFits divided drawn
    have lower_eq : (Knapsack.dividedAt (withChange target minimumChange)
        (largestFirst candidates)).lower.reverse =
          lowerThan (withChange target minimumChange) candidates :=
      List.reverse_reverse _
    rw [(Knapsack.tracks_dividedAt _ _).lowerTotal_eq, lower_eq] at run_eq
    refine ⟨?_, fun _ meets => ?_, fun _ short large => ?_⟩
    · rintro ⟨candidate, member, meets⟩
      exact (others candidate (perm.symm.subset member) meets).elim
    · rw [if_pos meets] at run_eq
      exact decides_of_run run_eq
    · obtain ⟨larger, larger_eq, least⟩ := Knapsack.least_larger distinct large
      rw [if_neg short.ne, if_pos short, larger_eq] at run_eq
      exact ⟨larger, least, decides_of_run run_eq⟩

/-- Two candidates of the same large value, two of the same smaller one, and a
small one. -/
def twoLargeThreeSmall : List Candidate :=
  [.free 3 100, .free 4 100, .free 1 40, .free 2 40, .free 0 10]

theorem select_knapsack_preference_twoLargeThreeSmall :
    Decides (.ofSeed 7) 10 twoLargeThreeSmall 40 0 [.free 1 40] ∧
      Decides (.ofSeed 7) 10 twoLargeThreeSmall 90 0 [.free 1 40, .free 2 40, .free 0 10] ∧
      Decides (.ofSeed 7) 5 twoLargeThreeSmall 95 0 [.free 3 100] := by
  have positive : Positive twoLargeThreeSmall := by
    unfold Positive
    decide +kernel
  have prefers (target minimumChange : Nat) (targetFits : (target : Int) ≤ greatestSigned) :=
    select_knapsack_preference (.ofSeed 7) minimumChange 0 positive (by decide +kernel)
      (by decide +kernel) targetFits
  have ordered : largestFirst twoLargeThreeSmall = twoLargeThreeSmall :=
    largestFirst_of_sorted (by decide +kernel)
  have lower_eq : lowerThan 100 twoLargeThreeSmall = [.free 1 40, .free 2 40, .free 0 10] := by
    rw [lowerThan, ordered]
    decide +kernel
  refine ⟨?_, ?_, ?_⟩
  · obtain ⟨found, least, decides⟩ := (prefers 40 10 (by decide)).1 (by decide +kernel)
    have lowest : Least (fun candidate => candidate.effectiveValue = 40) twoLargeThreeSmall
        (.free 1 40) := ⟨by decide +kernel, rfl, by decide +kernel⟩
    rwa [least.unique lowest] at decides
  · have decides := (prefers 90 10 (by decide)).2.1 (by decide +kernel)
    rw [show withChange 90 10 = 100 from rfl, lower_eq] at decides
    exact decides (by decide +kernel)
  · have decides := (prefers 95 5 (by decide)).2.2 (by decide +kernel)
    rw [show withChange 95 5 = 100 from rfl, lower_eq] at decides
    obtain ⟨larger, least, decides⟩ := decides (by decide +kernel) (by decide +kernel)
    have smallest : Least (fun candidate => 100 ≤ candidate.effectiveValue) twoLargeThreeSmall
        (.free 3 100) := ⟨by decide +kernel, le_rfl, by decide +kernel⟩
    rwa [least.unique smallest] at decides

/-- An output of the greatest amount and a small one, priced at one satoshi per
virtual byte. -/
def greatestAndSmall : List Candidate :=
  [{ utxo := { outpoint := ⟨⟨Vector.replicate 32 0⟩, 0⟩, amount := 0xFFFFFFFFFFFFFFFF }
     fee := 41
     longTermFee := 41
     effectiveValue := 9223372036854775766 },
    { utxo := { outpoint := ⟨⟨Vector.replicate 32 0⟩, 1⟩, amount := 51 }
      fee := 41
      longTermFee := 41
      effectiveValue := 10 }]

/-- The two meet a target together, but their amounts do not add up to a word. -/
theorem select_knapsack_overflows_greatestAndSmall :
    (greatestAndSmall.map Candidate.utxo).mapM (price ⟨1000⟩ ⟨1000⟩) = .ok greatestAndSmall ∧
      Positive greatestAndSmall ∧ worth greatestAndSmall ≤ greatestSigned ∧
      (greatestAndSmall.map fun candidate => candidate.utxo.outpoint).Nodup ∧
      (∀ candidate ∈ greatestAndSmall, candidate.effectiveValue ≠ 9223372036854775776) ∧
      worth (lowerThan (withChange 9223372036854775776 0) greatestAndSmall) =
        9223372036854775776 ∧
      ((Strategy.knapsack 0).select (.ofSeed 0) greatestAndSmall 9223372036854775776).run 0 =
        (abort (.overflow .add), 0) := by
  have ordered : largestFirst greatestAndSmall = greatestAndSmall :=
    largestFirst_of_sorted (by decide +kernel)
  have run_eq : (Knapsack.select (.ofSeed 0) 0 greatestAndSmall 9223372036854775776).run 0 =
      (.ok greatestAndSmall, 0) := by
    rw [Knapsack.select, ordered]
    decide +kernel
  have totals : Selection.ofCandidates greatestAndSmall 9223372036854775776 .knapsack =
      abort (.overflow .add) := by
    rw [Selection.ofCandidates, Selection.offeredOrder_of_sorted (by decide +kernel)]
    rfl
  refine ⟨by decide +kernel, ?_, by decide +kernel, by decide +kernel, by decide +kernel, ?_, ?_⟩
  · unfold Positive
    decide +kernel
  · rw [lowerThan, ordered]
    decide +kernel
  · rw [select, Draw.run_bind_of_ok run_eq, Draw.run_ofOutcome, totals]

end Preference

end Strategy

end CoinSelection
