import CoinSelection.Knapsack.Subset
import CoinSelection.Proofs.Sums

/-!
# Subsets found by random trials

Whatever words are drawn, a pass keeps account: its total is the sum of the
values that are taken at this point, counting those after the current one that
an earlier pass took.  A subset that is recorded therefore has the value it
claims and reaches the target, and no sum overflows as long as that of all
values does not.
-/

namespace CoinSelection.Knapsack

open Checked

/-! ## Masks -/

/-- The sum of the values that a mask takes. -/
def takenSum : List Int → List Bool → Int
  | value :: values, true :: mask => value + takenSum values mask
  | _ :: values, false :: mask => takenSum values mask
  | _, _ => 0

theorem takenSum_append {first : List Int} {mask : List Bool}
    (equal : first.length = mask.length) (second : List Int) (rest : List Bool) :
    takenSum (first ++ second) (mask ++ rest) = takenSum first mask + takenSum second rest := by
  induction first generalizing mask with
  | nil =>
      have empty : mask = [] := List.length_eq_zero_iff.mp equal.symm
      simp [empty, takenSum]
  | cons value values ih =>
      cases mask with
      | nil => simp at equal
      | cons taken mask =>
          have tail := ih (by simpa using equal)
          cases taken <;> simp [takenSum, tail, add_assoc]

/-- Taking one more value adds it. -/
theorem takenSum_turn {earlier : List Int} {mask : List Bool}
    (equal : earlier.length = mask.length) (value : Int) (later : List Int) (rest : List Bool) :
    takenSum (earlier ++ value :: later) (mask ++ true :: rest) =
      takenSum (earlier ++ value :: later) (mask ++ false :: rest) + value := by
  rw [takenSum_append equal, takenSum_append equal]
  simp only [takenSum]
  omega

theorem takenSum_all (values : List Int) :
    takenSum values (values.map fun _ => true) = values.sum := by
  induction values with
  | nil => rfl
  | cons value values ih => simp only [List.map_cons, takenSum, ih, List.sum_cons]

theorem takenSum_none (values : List Int) :
    takenSum values (values.map fun _ => false) = 0 := by
  induction values with
  | nil => rfl
  | cons value values ih => simp only [List.map_cons, takenSum, ih]

theorem takenSum_nonneg {values : List Int} (nonneg : ∀ value ∈ values, 0 ≤ value)
    (mask : List Bool) : 0 ≤ takenSum values mask := by
  fun_induction takenSum values mask with
  | case1 value values mask ih =>
      rw [List.forall_mem_cons] at nonneg
      exact add_nonneg nonneg.1 (ih nonneg.2)
  | case2 value values mask ih => exact ih (List.forall_mem_cons.mp nonneg).2
  | case3 => exact le_rfl

theorem takenSum_le_sum {values : List Int} (nonneg : ∀ value ∈ values, 0 ≤ value)
    (mask : List Bool) : takenSum values mask ≤ values.sum := by
  fun_induction takenSum values mask with
  | case1 value values mask ih =>
      rw [List.forall_mem_cons] at nonneg
      simpa using ih nonneg.2
  | case2 value values mask ih =>
      rw [List.forall_mem_cons] at nonneg
      simpa using le_trans (ih nonneg.2) (le_add_of_nonneg_left nonneg.1)
  | case3 values mask => exact List.sum_nonneg nonneg

/-! ## Recorded subsets -/

/-- A subset of the values whose sum is its value and reaches a target. -/
structure Subset.Reaches (values : List Int) (target : Int) (subset : Subset) : Prop where
  length_eq : subset.mask.length = values.length
  value_eq : subset.value = takenSum values subset.mask
  reaches : target ≤ subset.value

theorem Subset.reaches_all {values : List Int} {target : Int} (enough : target ≤ values.sum) :
    Subset.Reaches values target ⟨values.map fun _ => true, values.sum⟩ where
  length_eq := List.length_map _
  value_eq := (takenSum_all values).symm
  reaches := enough

/-! ## Passes -/

/-- A pass over values before these items keeps account of what is taken. -/
structure Pass.Tracks (values : List Int) (target : Int) (later : List Item) (pass : Pass) :
    Prop where
  split : ∃ earlier : List Int, earlier.length = pass.mask.length ∧
    earlier ++ later.map Prod.fst = values
  total_eq : pass.total = takenSum values (pass.mask ++ later.map Prod.snd)
  best : pass.best.Reaches values target

section Pass

variable {values : List Int} {target value : Int} {rest : List Item} {pass : Pass}

/-- Whatever is decided about it, one more value lies before the rest. -/
theorem Pass.Tracks.split_next {flag : Bool}
    (tracks : pass.Tracks values target ((value, flag) :: rest)) (taken : Bool) :
    ∃ earlier : List Int, earlier.length = (taken :: pass.taken).reverse.length ∧
      earlier ++ rest.map Prod.fst = values := by
  obtain ⟨earlier, equal, values_eq⟩ := tracks.split
  exact ⟨earlier ++ [value], by simpa [Pass.mask] using equal, by simpa using values_eq⟩

/-- A decision that agrees with the flag of its item moves the pass on. -/
theorem Pass.Tracks.decide {taken : Bool}
    (tracks : pass.Tracks values target ((value, taken) :: rest)) :
    Pass.Tracks values target rest { pass with taken := taken :: pass.taken } where
  split := tracks.split_next taken
  total_eq := by simpa [Pass.mask] using tracks.total_eq
  best := tracks.best

/-- Taking a value never overflows, and keeps account. -/
theorem Pass.Tracks.take (nonneg : ∀ value ∈ values, 0 ≤ value)
    (fits : values.sum ≤ greatestSigned)
    (tracks : pass.Tracks values target ((value, false) :: rest)) :
    ∃ next, pass.take target value rest = .ok next ∧ next.Tracks values target rest := by
  obtain ⟨earlier, equal, values_eq⟩ := tracks.split
  have turned : takenSum values (pass.mask ++ true :: rest.map Prod.snd) = pass.total + value := by
    rw [tracks.total_eq, ← values_eq]
    exact takenSum_turn equal value _ _
  have maskFits : ∀ mask, FitsSigned (takenSum values mask) := fun mask =>
    fitsSigned_of_nonneg (takenSum_nonneg nonneg mask) ((takenSum_le_sum nonneg mask).trans fits)
  have totalFits : FitsSigned (pass.total + value) := turned ▸ maskFits _
  have restoredFits : FitsSigned (pass.total + value - value) := by
    rw [add_sub_cancel_right, tracks.total_eq]
    exact maskFits _
  -- The value stays taken while the target is out of reach and is put back otherwise.
  by_cases below : pass.total + value < target
  · refine ⟨{ pass with taken := true :: pass.taken, total := pass.total + value }, ?_, ?_⟩
    · simp [Pass.take, addSigned_of_fits totalFits, below, pure, Except.pure]
    · exact ⟨tracks.split_next true, by simpa [Pass.mask] using turned.symm, tracks.best⟩
  · have restored : pass.total + value - value = pass.total := add_sub_cancel_right _ _
    refine ⟨{
      taken := false :: pass.taken
      total := pass.total
      reached := true
      best :=
        if pass.total + value < pass.best.value then
          ⟨pass.mask ++ true :: rest.map fun item => item.2, pass.total + value⟩
        else pass.best }, ?_, tracks.split_next false, ?_, ?_⟩
    · simp only [Pass.take, addSigned_of_fits totalFits, Outcome.ok_bind, if_neg below,
        subSigned_of_fits restoredFits, restored, pure, Except.pure]
    · simpa [Pass.mask] using tracks.total_eq
    · split
      · refine ⟨?_, turned.symm, not_lt.mp below⟩
        rw [← values_eq]
        simp [equal]
      · exact tracks.best

end Pass

section Trial

variable {values : List Int} {target : Int} {source : RandomSource}

/-- The first pass draws one word for every value, and keeps account. -/
theorem randomPass_run (nonneg : ∀ value ∈ values, 0 ≤ value) (fits : values.sum ≤ greatestSigned)
    {later : List Item} (none : ∀ item ∈ later, item.2 = false) {pass : Pass}
    (tracks : pass.Tracks values target later) (drawn : Nat) :
    ∃ last, (randomPass source target later pass).run drawn = (.ok last, drawn + later.length) ∧
      last.Tracks values target [] := by
  induction later generalizing pass drawn with
  | nil => exact ⟨pass, rfl, tracks⟩
  | cons item rest ih =>
      obtain ⟨value, taken⟩ := item
      obtain rfl : taken = false := none _ List.mem_cons_self
      have restNone : ∀ item ∈ rest, item.2 = false := fun item member =>
        none item (List.mem_cons_of_mem _ member)
      have length_eq : drawn + 1 + rest.length = drawn + ((value, false) :: rest).length := by
        simp only [List.length_cons]
        omega
      rw [randomPass, Draw.run_toss_bind, ← length_eq]
      by_cases heads : source drawn < 0x8000000000000000
      · obtain ⟨next, take_eq, nextTracks⟩ := tracks.take nonneg fits
        simpa [heads, take_eq] using ih restNone nextTracks (drawn + 1)
      · simpa [heads, Pass.leave] using ih restNone tracks.decide (drawn + 1)

/-- The second pass keeps account. -/
theorem fillingPass_eq_ok (nonneg : ∀ value ∈ values, 0 ≤ value)
    (fits : values.sum ≤ greatestSigned) {later : List Item} {pass : Pass}
    (tracks : pass.Tracks values target later) :
    ∃ last, fillingPass target later pass = .ok last ∧ last.Tracks values target [] := by
  fun_induction fillingPass target later pass with
  | case1 pass => exact ⟨pass, rfl, tracks⟩
  | case2 pass value rest ih => exact ih tracks.decide
  | case3 pass value rest ih =>
      obtain ⟨next, take_eq, nextTracks⟩ := tracks.take nonneg fits
      rw [take_eq]
      exact ih next nextTracks

/-- A pass starts with the items that an earlier one took. -/
theorem Pass.tracks_start {items : List Item} {best : Subset} {total : Int}
    (values_eq : items.map Prod.fst = values)
    (total_eq : total = takenSum values (items.map Prod.snd))
    (best_reaches : best.Reaches values target) :
    Pass.Tracks values target items { total, best } :=
  ⟨⟨[], rfl, values_eq⟩, total_eq, best_reaches⟩

@[simp]
theorem untaken_values (values : List Int) : (untaken values).map Prod.fst = values := by
  simp [untaken, Function.comp_def]

@[simp]
theorem untaken_mask (values : List Int) :
    (untaken values).map Prod.snd = values.map fun _ => false := by
  simp [untaken, Function.comp_def]

@[simp]
theorem untaken_length (values : List Int) : (untaken values).length = values.length :=
  List.length_map _

/-- A trial draws one word for every value.  It ends with its first pass if that
reached the target and with a second one otherwise, and both keep account. -/
theorem trial_passes (source : RandomSource) (nonneg : ∀ value ∈ values, 0 ≤ value)
    (fits : values.sum ≤ greatestSigned) {best : Subset} (reaches : best.Reaches values target)
    (drawn : Nat) :
    ∃ first, (randomPass source target (untaken values) { best }).run drawn =
          (.ok first, drawn + values.length) ∧
      ((first.reached = true ∧ first.Tracks values target [] ∧
          (trial source target values best).run drawn = (.ok first.best, drawn + values.length)) ∨
        ∃ second, fillingPass target (values.zip first.mask)
            { total := first.total, best := first.best } = .ok second ∧
          second.Tracks values target [] ∧
          (trial source target values best).run drawn =
            (.ok second.best, drawn + values.length)) := by
  have start : Pass.Tracks values target (untaken values) { best } := by
    refine Pass.tracks_start (untaken_values values) ?_ reaches
    rw [untaken_mask, takenSum_none]
  obtain ⟨first, first_eq, firstTracks⟩ :=
    randomPass_run nonneg fits (by simp [untaken]) start drawn
  rw [untaken_length] at first_eq
  refine ⟨first, first_eq, ?_⟩
  rw [trial, Draw.run_bind_of_ok first_eq]
  by_cases reached : first.reached = true
  · exact .inl ⟨reached, firstTracks, by simp [reached]⟩
  · obtain ⟨earlier, equal, values_eq⟩ := firstTracks.split
    have length_eq : values.length = first.mask.length := by
      rw [← values_eq, ← equal]
      simp
    have resumed : Pass.Tracks values target (values.zip first.mask)
        { total := first.total, best := first.best } := by
      refine Pass.tracks_start (List.map_fst_zip length_eq.le) ?_ firstTracks.best
      rw [List.map_snd_zip length_eq.ge, firstTracks.total_eq]
      simp
    obtain ⟨second, second_eq, secondTracks⟩ := fillingPass_eq_ok nonneg fits resumed
    refine .inr ⟨second, second_eq, secondTracks, ?_⟩
    rw [if_neg reached, second_eq, Draw.run_ofOutcome_ok_bind, Draw.run_pure]

/-- A trial leaves a subset that reaches the target. -/
theorem trial_run (nonneg : ∀ value ∈ values, 0 ≤ value) (fits : values.sum ≤ greatestSigned)
    {best : Subset} (reaches : best.Reaches values target) (drawn : Nat) :
    ∃ better, (trial source target values best).run drawn = (.ok better, drawn + values.length) ∧
      better.Reaches values target := by
  obtain ⟨_, _, ⟨_, tracks, trial_eq⟩ | ⟨_, _, tracks, trial_eq⟩⟩ :=
    trial_passes source nonneg fits reaches drawn
  · exact ⟨_, trial_eq, tracks.best⟩
  · exact ⟨_, trial_eq, tracks.best⟩

/-- Trials draw a whole number of times one word for every value. -/
theorem improve_run (nonneg : ∀ value ∈ values, 0 ≤ value) (fits : values.sum ≤ greatestSigned)
    {best : Subset} (reaches : best.Reaches values target) (count drawn : Nat) :
    ∃ better rounds, rounds ≤ count ∧
      (improve source target values count best).run drawn =
        (.ok better, drawn + rounds * values.length) ∧
      better.Reaches values target := by
  induction count generalizing best drawn with
  | zero => exact ⟨best, 0, le_rfl, by simp [improve], reaches⟩
  | succ count ih =>
      by_cases met : best.value = target
      · exact ⟨best, 0, Nat.zero_le _, by simp [improve, met], reaches⟩
      · obtain ⟨next, next_eq, nextReaches⟩ := trial_run nonneg fits reaches drawn
        obtain ⟨better, rounds, rounds_le, better_eq, betterReaches⟩ :=
          ih nextReaches (drawn + values.length)
        refine ⟨better, rounds + 1, Nat.succ_le_succ rounds_le, ?_, betterReaches⟩
        rw [improve, if_neg met, Draw.run_bind_of_ok next_eq, better_eq, Nat.succ_mul]
        congr 1
        omega

/-- The approximation always finds a subset that reaches a target that all
values reach together. -/
theorem approximate_run (nonneg : ∀ value ∈ values, 0 ≤ value)
    (fits : values.sum ≤ greatestSigned) {total : Int} (total_eq : total = values.sum)
    (enough : target ≤ total) (drawn : Nat) :
    ∃ best rounds, rounds ≤ trials ∧
      (approximate source values total target).run drawn =
        (.ok best, drawn + rounds * values.length) ∧
      best.Reaches values target := by
  subst total_eq
  exact improve_run nonneg fits (Subset.reaches_all enough) trials drawn

end Trial

end CoinSelection.Knapsack
