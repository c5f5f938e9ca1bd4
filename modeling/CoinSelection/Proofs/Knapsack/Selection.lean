import CoinSelection.Knapsack
import CoinSelection.Proofs.Candidates
import CoinSelection.Proofs.Knapsack.Subset

/-!
# What the knapsack selects

Dividing the candidates keeps the smaller ones in order, with their worth, and
the smallest of the larger ones if there is any.  From this every way to end
follows: the knapsack selects some of the candidates that reach the target
together, or all candidates together do not.  What it selects leaves no change,
or as much as it should where all candidates together allow for that, and is
worth no more than any of the larger candidates.
-/

namespace CoinSelection.Knapsack

open Candidate Checked

/-! ## Masked candidates -/

theorem masked_cons (candidate : Candidate) (rest : List Candidate) (taken : Bool)
    (mask : List Bool) :
    masked (candidate :: rest) (taken :: mask) =
      if taken then candidate :: masked rest mask else masked rest mask := by
  cases taken <;> rfl

theorem masked_sublist (candidates : List Candidate) (mask : List Bool) :
    (masked candidates mask).Sublist candidates := by
  induction candidates generalizing mask with
  | nil => cases mask <;> exact List.Sublist.refl _
  | cons candidate rest ih =>
      cases mask with
      | nil => exact List.nil_sublist _
      | cons taken mask =>
          rw [masked_cons]
          split
          · exact (ih mask).cons_cons candidate
          · exact (ih mask).cons candidate

theorem worth_masked (candidates : List Candidate) (mask : List Bool) :
    worth (masked candidates mask) = takenSum (candidates.map effectiveValue) mask := by
  induction candidates generalizing mask with
  | nil => cases mask <;> rfl
  | cons candidate rest ih =>
      cases mask with
      | nil => rfl
      | cons taken mask => cases taken <;> simp [masked_cons, takenSum, ih]

/-! ## The smallest of some candidates -/

theorem undercuts_iff {candidate larger : Candidate} :
    undercuts candidate (some larger) = true ↔ byValue candidate larger = .lt := by
  simp [undercuts, byValue_eq_lt_iff]

/-- The smaller one of a candidate and the smallest one before it. -/
def smaller (larger : Option Candidate) (candidate : Candidate) : Option Candidate :=
  if undercuts candidate larger then some candidate else larger

/-- The smallest of some candidates comes after none of them. -/
theorem foldl_smaller (candidates : List Candidate) (start : Candidate) :
    ∃ least, candidates.foldl smaller (some start) = some least ∧
      least ∈ start :: candidates ∧
      ∀ other ∈ start :: candidates, (byValue least other).isLE = true := by
  induction candidates generalizing start with
  | nil => exact ⟨start, rfl, by simp, by simp [Std.ReflCmp.compare_self]⟩
  | cons candidate rest ih =>
      rw [List.foldl_cons, smaller]
      split
      · rename_i undercut
        obtain ⟨least, least_eq, member, isLE⟩ := ih candidate
        have before : (byValue candidate start).isLE = true := by
          simp [undercuts_iff.mp undercut]
        refine ⟨least, least_eq, List.mem_cons_of_mem _ member, List.forall_mem_cons.mpr ⟨?_, isLE⟩⟩
        exact Std.TransCmp.isLE_trans (isLE candidate List.mem_cons_self) before
      · rename_i undercut
        obtain ⟨least, least_eq, member, isLE⟩ := ih start
        have before : (byValue start candidate).isLE = true := by
          have swapped : byValue start candidate = (byValue candidate start).swap :=
            Std.OrientedCmp.eq_swap
          rw [undercuts_iff] at undercut
          cases order : byValue candidate start <;> simp_all
        have start_le := isLE start List.mem_cons_self
        refine ⟨least, least_eq,
          ((List.sublist_cons_self candidate rest).cons_cons start).subset member, ?_⟩
        rw [List.forall_mem_cons, List.forall_mem_cons]
        exact ⟨start_le, Std.TransCmp.isLE_trans start_le before, (List.forall_mem_cons.mp isLE).2⟩

/-! ## Dividing -/

/-- Candidates divided at a bound. -/
def dividedAt (bound : Int) (candidates : List Candidate) : Division where
  lower := (candidates.filter fun candidate => candidate.effectiveValue < bound).reverse
  lowerTotal := worth (candidates.filter fun candidate => candidate.effectiveValue < bound)
  larger := (candidates.filter fun candidate => bound ≤ candidate.effectiveValue).foldl smaller none

section Divide

variable {target bound : Int} {seen rest : List Candidate} {candidate : Candidate}

/-- A smaller candidate is put with the others. -/
theorem dividedAt_of_lt (small : candidate.effectiveValue < bound) (seen : List Candidate) :
    dividedAt bound (seen ++ [candidate]) =
      { dividedAt bound seen with
        lower := candidate :: (dividedAt bound seen).lower
        lowerTotal := (dividedAt bound seen).lowerTotal + candidate.effectiveValue } := by
  simp [dividedAt, small]

/-- A larger candidate becomes the smallest larger one or is dropped. -/
theorem dividedAt_of_le (large : bound ≤ candidate.effectiveValue) (seen : List Candidate) :
    dividedAt bound (seen ++ [candidate]) =
      { dividedAt bound seen with
        larger := smaller (dividedAt bound seen).larger candidate } := by
  simp [dividedAt, large]

/-- Dividing finds the first candidate that meets the target, or divides all
candidates at the bound. -/
theorem divide_eq (positive : Positive (seen ++ rest))
    (fits : worth (seen ++ rest) ≤ greatestSigned) :
    divide target bound rest (dividedAt bound seen) = .ok
      (match rest.find? fun candidate => candidate.effectiveValue = target with
      | some found => .inl found
      | none => .inr (dividedAt bound (seen ++ rest))) := by
  induction rest generalizing seen with
  | nil => simp [divide]
  | cons candidate rest ih =>
      have seen_eq : seen ++ candidate :: rest = (seen ++ [candidate]) ++ rest := by simp
      rw [divide]
      by_cases meets : candidate.effectiveValue = target
      · simp [meets, pure, Except.pure]
      rw [if_neg meets, List.find?_cons_of_neg (by simpa using meets)]
      rw [seen_eq] at positive fits ⊢
      rw [← ih positive fits]
      by_cases small : candidate.effectiveValue < bound
      · have total_eq : (dividedAt bound seen).lowerTotal + candidate.effectiveValue =
            worth ((seen ++ [candidate]).filter fun other => other.effectiveValue < bound) := by
          simp [dividedAt, small]
        have part : ((seen ++ [candidate]).filter fun other => other.effectiveValue < bound).Subperm
            ((seen ++ [candidate]) ++ rest) :=
          (List.filter_sublist.trans (List.sublist_append_left _ rest)).subperm
        have totalFits : FitsSigned
            ((dividedAt bound seen).lowerTotal + candidate.effectiveValue) := by
          rw [total_eq]
          exact fitsSigned_of_nonneg (positive.subset part.subset).worth_nonneg
            ((positive.worth_le part).trans fits)
        rw [if_pos small, addSigned_of_fits totalFits, dividedAt_of_lt small]
        rfl
      · rw [if_neg small, dividedAt_of_le (not_lt.mp small), smaller]
        split <;> rfl

/-- Dividing all candidates. -/
theorem divide_all (target bound : Int) {candidates : List Candidate}
    (positive : Positive candidates) (fits : worth candidates ≤ greatestSigned) :
    (∃ found, candidates.find? (fun candidate => candidate.effectiveValue = target) = some found ∧
      divide target bound candidates {} = .ok (.inl found)) ∨
    (∀ candidate ∈ candidates, candidate.effectiveValue ≠ target) ∧
      divide target bound candidates {} = .ok (.inr (dividedAt bound candidates)) := by
  have divided : divide target bound candidates {} = _ :=
    @divide_eq target bound [] candidates positive fits
  cases search : candidates.find? (fun candidate => candidate.effectiveValue = target) with
  | some found =>
      rw [search] at divided
      exact .inl ⟨found, rfl, divided⟩
  | none =>
      rw [search] at divided
      exact .inr ⟨by simpa using search, divided⟩

/-- The smallest larger candidate is found unless all are below the bound. -/
theorem larger_dividedAt (bound : Int) (candidates : List Candidate) :
    ((dividedAt bound candidates).larger = none ∧
        ∀ candidate ∈ candidates, candidate.effectiveValue < bound) ∨
      ∃ least, (dividedAt bound candidates).larger = some least ∧
        least ∈ candidates ∧ bound ≤ least.effectiveValue ∧
        ∀ other ∈ candidates, bound ≤ other.effectiveValue → (byValue least other).isLE = true := by
  have mem_large (candidate : Candidate) :
      candidate ∈ candidates.filter (fun other => bound ≤ other.effectiveValue) ↔
        candidate ∈ candidates ∧ bound ≤ candidate.effectiveValue := by
    simp
  rw [dividedAt]
  generalize candidates.filter (fun other => bound ≤ other.effectiveValue) = large at mem_large
  cases large with
  | nil =>
      refine .inl ⟨rfl, fun candidate member => not_le.mp fun reaches => ?_⟩
      exact List.not_mem_nil ((mem_large candidate).mpr ⟨member, reaches⟩)
  | cons first rest =>
      obtain ⟨least, least_eq, member, isLE⟩ := foldl_smaller rest first
      obtain ⟨leastMember, reaches⟩ := (mem_large least).mp member
      exact .inr ⟨least, least_eq, leastMember, reaches, fun other otherMember otherReaches =>
        isLE other ((mem_large other).mpr ⟨otherMember, otherReaches⟩)⟩

end Divide

/-- What a division knows about the candidates that it has seen. -/
structure Division.Tracks (bound : Int) (seen : List Candidate) (division : Division) : Prop where
  lower_sublist : division.lower.reverse.Sublist seen
  lowerTotal_eq : division.lowerTotal = worth division.lower.reverse
  larger_mem : ∀ larger, division.larger = some larger →
    larger ∈ seen ∧ bound ≤ larger.effectiveValue
  larger_least : ∀ candidate ∈ seen, bound ≤ candidate.effectiveValue →
    ∃ larger, division.larger = some larger ∧ larger.effectiveValue ≤ candidate.effectiveValue
  lower_all : division.larger = none → division.lower.reverse = seen

theorem tracks_dividedAt (bound : Int) (candidates : List Candidate) :
    (dividedAt bound candidates).Tracks bound candidates := by
  have lower_eq : (dividedAt bound candidates).lower.reverse =
      candidates.filter fun candidate => candidate.effectiveValue < bound := by
    simp [dividedAt]
  have lower_sublist : (dividedAt bound candidates).lower.reverse.Sublist candidates := by
    rw [lower_eq]
    exact List.filter_sublist
  have lowerTotal_eq : (dividedAt bound candidates).lowerTotal =
      worth (dividedAt bound candidates).lower.reverse := by
    rw [lower_eq, dividedAt]
  rcases larger_dividedAt bound candidates with
    ⟨larger_eq, small⟩ | ⟨least, larger_eq, member, reaches, isLE⟩
  · refine ⟨lower_sublist, lowerTotal_eq, by simp [larger_eq], ?_, fun _ => ?_⟩
    · intro candidate member large
      exact absurd large (not_le.mpr (small candidate member))
    · rw [lower_eq, List.filter_eq_self]
      simpa using small
  · refine ⟨lower_sublist, lowerTotal_eq, ?_, ?_, by simp [larger_eq]⟩
    · intro larger found
      obtain rfl := Option.some.inj (larger_eq.symm.trans found)
      exact ⟨member, reaches⟩
    · intro candidate candidateMember large
      exact ⟨least, larger_eq, effectiveValue_le_of_byValue (isLE candidate candidateMember large)⟩

/-! ## The change that is left -/

/-- Some of the candidates reach a target and leave the change that they should.
The bound is the target with the least change that should be left. -/
structure ChangeBand (target bound : Int) (candidates chosen : List Candidate) : Prop where
  target_le : target ≤ worth chosen
  /-- No change is left, or enough, unless all candidates together leave less. -/
  meets_or_le : bound ≤ worth candidates → worth chosen = target ∨ bound ≤ worth chosen
  /-- No candidate that leaves enough alone is worth less. -/
  le_larger : ∀ candidate ∈ candidates, bound ≤ candidate.effectiveValue →
    worth chosen ≤ candidate.effectiveValue

section Band

variable {target bound : Int} {candidates chosen : List Candidate} {division : Division}

theorem ChangeBand.perm {others : List Candidate} (band : ChangeBand target bound candidates chosen)
    (perm : candidates.Perm others) : ChangeBand target bound others chosen where
  target_le := band.target_le
  meets_or_le enough := band.meets_or_le (worth_perm perm ▸ enough)
  le_larger candidate member := band.le_larger candidate (perm.symm.subset member)

/-- Candidates that meet the target leave no change. -/
theorem changeBand_of_meets (bound_ge : target ≤ bound) (meets : worth chosen = target) :
    ChangeBand target bound candidates chosen where
  target_le := meets.ge
  meets_or_le _ := .inl meets
  le_larger _ _ large := meets.le.trans (bound_ge.trans large)

/-- The smallest larger candidate is worth no more than any of them. -/
theorem Division.Tracks.larger_le (tracks : division.Tracks bound candidates) {larger : Candidate}
    (found : division.larger = some larger) {candidate : Candidate}
    (member : candidate ∈ candidates) (large : bound ≤ candidate.effectiveValue) :
    larger.effectiveValue ≤ candidate.effectiveValue := by
  obtain ⟨least, least_eq, least_le⟩ := tracks.larger_least candidate member large
  obtain rfl := Option.some.inj (found.symm.trans least_eq)
  exact least_le

/-- Alone it leaves enough change. -/
theorem Division.Tracks.changeBand_larger (tracks : division.Tracks bound candidates)
    (bound_ge : target ≤ bound) {larger : Candidate} (found : division.larger = some larger) :
    ChangeBand target bound candidates [larger] where
  target_le := by simpa using bound_ge.trans (tracks.larger_mem larger found).2
  meets_or_le _ := .inr (by simpa using (tracks.larger_mem larger found).2)
  le_larger candidate member large := by simpa using tracks.larger_le found member large

/-- Where no candidate is larger, all of them are among the smaller ones. -/
theorem Division.Tracks.changeBand_of_none (tracks : division.Tracks bound candidates)
    (none : division.larger = none) (target_le : target ≤ worth chosen)
    (close : bound ≤ division.lowerTotal → worth chosen = target ∨ bound ≤ worth chosen) :
    ChangeBand target bound candidates chosen where
  target_le := target_le
  meets_or_le enough := close (by rwa [tracks.lowerTotal_eq, tracks.lower_all none])
  le_larger candidate member large := by
    obtain ⟨_, found, _⟩ := tracks.larger_least candidate member large
    rw [none] at found
    cases found

end Band

/-! ## Choosing among smaller candidates -/

section Lower

variable {source : RandomSource} {target bound lowerTotal : Int} {lower candidates : List Candidate}
  {larger : Option Candidate} {division : Division}

/-- A subset close above the target, or above the bound if the target is not
met exactly and the bound can be reached. -/
def closestSubset (source : RandomSource) (values : List Int) (total target bound : Int) :
    Draw Subset := do
  let closest ← approximate source values total target
  if closest.value ≠ target ∧ bound ≤ total then
    approximate source values total bound
  else
    pure closest

/-- The subset, or the smallest larger candidate where that is better. -/
def settle (target bound : Int) (lower : List Candidate) (best : Subset) :
    Option Candidate → List Candidate
  | some candidate =>
      if (best.value ≠ target ∧ best.value < bound) ∨ candidate.effectiveValue ≤ best.value then
        [candidate]
      else
        masked lower best.mask
  | none => masked lower best.mask

theorem selectLower_eq :
    selectLower source target bound lower lowerTotal larger = (do
      let best ← closestSubset source (lower.map effectiveValue) lowerTotal target bound
      pure (settle target bound lower best larger)) := by
  simp only [selectLower, closestSubset, bind_assoc]
  congr 1
  funext closest
  split <;> cases larger <;> simp only [settle, pure_bind, apply_ite pure]

/-- A subset that reaches the target is always found.  It meets the target, or
reaches the bound if that can be reached. -/
theorem closestSubset_run {values : List Int} {total : Int}
    (nonneg : ∀ value ∈ values, 0 ≤ value) (fits : values.sum ≤ greatestSigned)
    (total_eq : total = values.sum) (enough : target ≤ total) (bound_ge : target ≤ bound)
    (drawn : Nat) :
    ∃ best later,
      (closestSubset source values total target bound).run drawn = (.ok best, later) ∧
        best.Reaches values target ∧
        (bound ≤ total → best.value = target ∨ bound ≤ best.value) := by
  obtain ⟨closest, _, _, closest_eq, closestReaches⟩ :=
    approximate_run nonneg fits total_eq enough drawn
  rw [closestSubset, Draw.run_bind_of_ok closest_eq]
  split
  · rename_i better
    obtain ⟨best, _, _, best_eq, bestReaches⟩ :=
      approximate_run nonneg fits total_eq better.2 _
    exact ⟨best, _, best_eq,
      ⟨bestReaches.length_eq, bestReaches.value_eq, bound_ge.trans bestReaches.reaches⟩,
      fun _ => .inr bestReaches.reaches⟩
  · rename_i settled
    refine ⟨closest, _, rfl, closestReaches, fun reachable => ?_⟩
    by_contra neither
    exact settled ⟨fun meets => neither (.inl meets), reachable⟩

/-- Either choice is among the candidates and leaves its change. -/
theorem settle_changeBand {best : Subset} (tracks : division.Tracks bound candidates)
    (bound_ge : target ≤ bound)
    (reaches : best.Reaches (division.lower.reverse.map effectiveValue) target)
    (close : bound ≤ division.lowerTotal → best.value = target ∨ bound ≤ best.value) :
    (settle target bound division.lower.reverse best division.larger).Sublist candidates ∧
      ChangeBand target bound candidates
        (settle target bound division.lower.reverse best division.larger) := by
  have sublist : (masked division.lower.reverse best.mask).Sublist candidates :=
    (masked_sublist _ _).trans tracks.lower_sublist
  have value_eq : worth (masked division.lower.reverse best.mask) = best.value := by
    rw [worth_masked, ← reaches.value_eq]
  cases larger_eq : division.larger with
  | none =>
      exact ⟨sublist, tracks.changeBand_of_none larger_eq (reaches.reaches.trans_eq value_eq.symm)
        (value_eq ▸ close)⟩
  | some larger =>
      rw [settle]
      split
      · exact ⟨List.singleton_sublist.mpr (tracks.larger_mem larger larger_eq).1,
          tracks.changeBand_larger bound_ge larger_eq⟩
      · rename_i better
        obtain ⟨within, below⟩ := not_or.mp better
        refine ⟨sublist, reaches.reaches.trans_eq value_eq.symm, fun _ => ?_, ?_⟩
        · rw [value_eq]
          by_contra neither
          exact within ⟨fun meets => neither (.inl meets), not_le.mp fun le => neither (.inr le)⟩
        · intro candidate member large
          rw [value_eq]
          exact (not_le.mp below).le.trans (tracks.larger_le larger_eq member large)

/-- Smaller candidates that exceed the target together are enough for a
selection. -/
theorem selectLower_run (positive : Positive candidates) (fits : worth candidates ≤ greatestSigned)
    (tracks : division.Tracks bound candidates) (enough : target ≤ division.lowerTotal)
    (bound_ge : target ≤ bound) (drawn : Nat) :
    ∃ chosen later,
      (selectLower source target bound division.lower.reverse division.lowerTotal
        division.larger).run drawn = (.ok chosen, later) ∧
        chosen.Sublist candidates ∧ ChangeBand target bound candidates chosen := by
  have nonneg : ∀ value ∈ division.lower.reverse.map effectiveValue, 0 ≤ value := by
    simpa using fun candidate member =>
      (positive candidate (tracks.lower_sublist.subset (by simpa using member))).le
  have lower_le := positive.worth_le tracks.lower_sublist.subperm
  obtain ⟨best, later, best_eq, reaches, close⟩ :=
    closestSubset_run nonneg (lower_le.trans fits) tracks.lowerTotal_eq enough bound_ge drawn
  refine ⟨_, later, ?_, settle_changeBand tracks bound_ge reaches close⟩
  rw [selectLower_eq, Draw.run_bind_of_ok best_eq]
  rfl

end Lower

/-! ## Selecting -/

section Select

variable {source : RandomSource} {minimumChange target : Nat} {candidates : List Candidate}

/-- A candidate that meets the target is selected. -/
theorem select_run_of_found (fits : (target : Int) ≤ greatestSigned) {found : Candidate}
    (divided : divide target (min ((target : Int) + minimumChange) greatestSigned)
      (largestFirst candidates) {} = .ok (.inl found)) (drawn : Nat) :
    (select source minimumChange candidates target).run drawn = (.ok [found], drawn) := by
  rw [select, toSigned?_eq_some_iff.mpr ⟨fits, rfl⟩]
  dsimp only
  rw [saturatingAddSigned_clampSigned, divided, Draw.run_ofOutcome_ok_bind, Draw.run_pure]

/-- Otherwise the smaller candidates decide. -/
theorem select_run_of_divided (fits : (target : Int) ≤ greatestSigned) {division : Division}
    (divided : divide target (min ((target : Int) + minimumChange) greatestSigned)
      (largestFirst candidates) {} = .ok (.inr division)) (drawn : Nat) :
    (select source minimumChange candidates target).run drawn =
      (if division.lowerTotal = target then
        pure division.lower.reverse
      else if division.lowerTotal < target then
        match division.larger with
        | some larger => pure [larger]
        | none => Draw.ofOutcome (refuse (insufficient candidates target))
      else
        selectLower source target (min ((target : Int) + minimumChange) greatestSigned)
          division.lower.reverse division.lowerTotal division.larger).run drawn := by
  rw [select, toSigned?_eq_some_iff.mpr ⟨fits, rfl⟩]
  dsimp only
  rw [saturatingAddSigned_clampSigned, divided]
  exact Draw.run_ofOutcome_ok_bind _ _ _

/-- The knapsack selects some of the candidates that reach the target and leave
no change or enough, or all candidates together do not reach it. -/
theorem select_run (positive : Positive candidates) (fits : worth candidates ≤ greatestSigned)
    (minimumChange drawn : Nat) :
    (∃ chosen later,
      (select source minimumChange candidates target).run drawn = (.ok chosen, later) ∧
        chosen.Sublist (largestFirst candidates) ∧
        ChangeBand target (min ((target : Int) + minimumChange) greatestSigned) candidates chosen) ∨
    (worth candidates < target ∧
      (select source minimumChange candidates target).run drawn =
        (.error (.error (insufficient candidates target)), drawn)) := by
  have perm := largestFirst_perm candidates
  have ordered_worth : worth (largestFirst candidates) = worth candidates := worth_perm perm
  have orderedPositive : Positive (largestFirst candidates) := positive.subset perm.subset
  by_cases targetFits : (target : Int) ≤ greatestSigned
  · have bound_ge : (target : Int) ≤ min ((target : Int) + minimumChange) greatestSigned :=
      le_min (by omega) targetFits
    rcases divide_all target (min ((target : Int) + minimumChange) greatestSigned) orderedPositive
        (ordered_worth.trans_le fits) with
      ⟨found, search, divided⟩ | ⟨-, divided⟩
    · have meets : found.effectiveValue = target := by simpa using List.find?_some search
      exact .inl ⟨[found], drawn, select_run_of_found targetFits divided drawn,
        List.singleton_sublist.mpr (List.mem_of_find?_eq_some search),
        changeBand_of_meets bound_ge (by simp [meets])⟩
    have tracks := tracks_dividedAt (min ((target : Int) + minimumChange) greatestSigned)
      (largestFirst candidates)
    rw [select_run_of_divided targetFits divided]
    generalize dividedAt _ (largestFirst candidates) = division at tracks
    split_ifs with meets short
    · exact .inl ⟨_, drawn, rfl, tracks.lower_sublist,
        changeBand_of_meets bound_ge (by rw [← tracks.lowerTotal_eq, meets])⟩
    · cases larger_eq : division.larger with
      | some larger =>
          exact .inl ⟨_, drawn, rfl,
            List.singleton_sublist.mpr (tracks.larger_mem larger larger_eq).1,
            (tracks.changeBand_larger bound_ge larger_eq).perm perm⟩
      | none =>
          rw [tracks.lowerTotal_eq, tracks.lower_all larger_eq, ordered_worth] at short
          exact .inr ⟨short, rfl⟩
    · obtain ⟨chosen, later, chosen_eq, sublist, band⟩ := selectLower_run orderedPositive
        (ordered_worth.trans_le fits) tracks (not_lt.mp short) bound_ge drawn
      exact .inl ⟨chosen, later, chosen_eq, sublist, band.perm perm⟩
  · refine .inr ⟨fits.trans_lt (not_le.mp targetFits), ?_⟩
    rw [select, toSigned?_eq_none_iff.mpr (not_le.mp targetFits)]
    rfl

end Select

end CoinSelection.Knapsack
