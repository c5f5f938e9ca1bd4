import CoinSelection.Proofs.Knapsack.Selection
import Mathlib.Data.List.MinMax

/-!
# How far random trials overshoot

A pass takes values only as long as they are short of the target, and puts the
value back that reaches it.  So a subset that a pass records exceeds the target
by less than that value.  A trial whose first pass is short of the target to the
end takes everything else in its second pass, and all values together do reach
it: whatever words are drawn, one trial is enough to come within the largest
value of the target.
-/

namespace CoinSelection.Knapsack

open Candidate Checked Outcome

/-! ## Passes -/

section Pass

variable {values : List Int} {target largest value : Int} {later : List Item}
  {pass next last : Pass} {source : RandomSource}

/-- A value stays taken while the target is out of reach, and otherwise it is
put back and the subset recorded if it is better. -/
theorem Pass.take_cases (taken : pass.take target value later = .ok next) :
    pass.total + value < target ∧
        next = { pass with taken := true :: pass.taken, total := pass.total + value } ∨
      target ≤ pass.total + value ∧ next =
        { taken := false :: pass.taken
          total := pass.total
          reached := true
          best :=
            if pass.total + value < pass.best.value then
              ⟨pass.mask ++ true :: later.map fun item => item.2, pass.total + value⟩
            else pass.best } := by
  unfold Pass.take at taken
  obtain ⟨total, added, taken⟩ := bind_eq_ok_iff.mp taken
  obtain ⟨_, rfl⟩ := addSigned_eq_ok_iff.mp added
  split at taken
  · rename_i below
    cases taken
    exact .inl ⟨below, rfl⟩
  · rename_i reached
    obtain ⟨restored, subtracted, taken⟩ := bind_eq_ok_iff.mp taken
    obtain ⟨_, rfl⟩ := subSigned_eq_ok_iff.mp subtracted
    rw [add_sub_cancel_right] at taken
    cases taken
    exact .inr ⟨not_lt.mp reached, rfl⟩

/-- What is taken is short of the target, and once the target was reached the
best subset exceeds it by less than the largest value. -/
structure Pass.Close (target largest : Int) (pass : Pass) : Prop where
  short : pass.total < target
  close : pass.reached = true → pass.best.value < target + largest

/-- A pass that starts short of the target has not reached it. -/
theorem Pass.close_start {total : Int} (short : total < target) (largest : Int) (best : Subset) :
    Pass.Close target largest { total, best } where
  short := short
  close reached := absurd reached Bool.false_ne_true

theorem Pass.Close.take (close : pass.Close target largest) (value_le : value ≤ largest)
    (taken : pass.take target value later = .ok next) : next.Close target largest := by
  rcases Pass.take_cases taken with ⟨below, rfl⟩ | ⟨_, rfl⟩
  · exact ⟨below, close.close⟩
  · refine ⟨close.short, fun _ => ?_⟩
    have short := close.short
    dsimp only
    split
    · dsimp only
      omega
    · rename_i better
      omega

/-- Whatever is drawn, the first pass comes close. -/
theorem randomPass_close (values_le : ∀ item ∈ later, item.1 ≤ largest)
    (close : pass.Close target largest) {drawn after : Nat}
    (ran : (randomPass source target later pass).run drawn = (.ok last, after)) :
    last.Close target largest := by
  induction later generalizing pass drawn with
  | nil =>
      cases ran
      exact close
  | cons item rest ih =>
      obtain ⟨value, flag⟩ := item
      rw [List.forall_mem_cons] at values_le
      rw [randomPass, Draw.run_toss_bind] at ran
      by_cases heads : source drawn < 0x8000000000000000
      · simp only [heads, decide_true, if_true] at ran
        obtain ⟨next, middle, taken, rest_ran⟩ := Draw.run_bind_eq_ok_iff.mp ran
        rw [Draw.run_ofOutcome, Prod.mk.injEq] at taken
        exact ih values_le.2 (close.take values_le.1 taken.1) rest_ran
      · simp only [heads, decide_false, Bool.false_eq_true, if_false] at ran
        have left : pass.leave.Close target largest := ⟨close.short, close.close⟩
        exact ih values_le.2 left ran

/-- So does the second pass. -/
theorem fillingPass_close (values_le : ∀ item ∈ later, item.1 ≤ largest)
    (close : pass.Close target largest) (ran : fillingPass target later pass = .ok last) :
    last.Close target largest := by
  fun_induction fillingPass target later pass with
  | case1 pass =>
      cases ran
      exact close
  | case2 pass value rest ih =>
      exact ih (List.forall_mem_cons.mp values_le).2 ⟨close.short, close.close⟩ ran
  | case3 pass value rest ih =>
      rw [List.forall_mem_cons] at values_le
      obtain ⟨next, taken, rest_ran⟩ := bind_eq_ok_iff.mp ran
      exact ih next values_le.2 (close.take values_le.1 taken) rest_ran

/-- Until it reaches the target the second pass leaves nothing out. -/
theorem fillingPass_takes_all (all : pass.reached = true ∨ ∀ taken ∈ pass.taken, taken = true)
    (ran : fillingPass target later pass = .ok last) :
    last.reached = true ∨ ∀ taken ∈ last.taken, taken = true := by
  fun_induction fillingPass target later pass with
  | case1 pass =>
      cases ran
      exact all
  | case2 pass value rest ih =>
      refine ih (all.imp_right fun all => ?_) ran
      exact List.forall_mem_cons.mpr ⟨rfl, all⟩
  | case3 pass value rest ih =>
      obtain ⟨next, taken, rest_ran⟩ := bind_eq_ok_iff.mp ran
      refine ih next ?_ rest_ran
      rcases Pass.take_cases taken with ⟨_, rfl⟩ | ⟨_, rfl⟩
      · exact all.imp_right fun all => List.forall_mem_cons.mpr ⟨rfl, all⟩
      · exact .inl rfl

/-- A pass over all values that left nothing out has their sum. -/
theorem Pass.Tracks.total_eq_sum (tracks : last.Tracks values target [])
    (all : ∀ taken ∈ last.taken, taken = true) : last.total = values.sum := by
  obtain ⟨earlier, equal, values_eq⟩ := tracks.split
  have length_eq : last.mask.length = values.length := by
    rw [← values_eq, ← equal]
    simp
  have mask_eq : last.mask = values.map fun _ => true := by
    rw [List.map_const', ← length_eq]
    exact List.eq_replicate_of_mem fun taken member => all taken (List.mem_reverse.mp member)
  rw [tracks.total_eq, List.map_nil, List.append_nil, mask_eq, takenSum_all]

/-- If all values together reach the target, the second pass does. -/
theorem fillingPass_reached (enough : target ≤ values.sum) (start : pass.taken = [])
    (tracks : last.Tracks values target []) (short : last.total < target)
    (ran : fillingPass target later pass = .ok last) : last.reached = true := by
  have nothing : ∀ taken ∈ pass.taken, taken = true := by simp [start]
  rcases fillingPass_takes_all (.inr nothing) ran with reached | all
  · exact reached
  · rw [tracks.total_eq_sum all] at short
    exact absurd short (not_lt.mpr enough)

end Pass

/-! ## Trials -/

section Trial

variable {values : List Int} {target largest : Int} {source : RandomSource} {best better : Subset}

/-- A trial comes close to a target that all values together reach. -/
theorem trial_close (nonneg : ∀ value ∈ values, 0 ≤ value) (fits : values.sum ≤ greatestSigned)
    (values_le : ∀ value ∈ values, value ≤ largest) (targetPos : 0 < target)
    (enough : target ≤ values.sum) (reaches : best.Reaches values target) {drawn after : Nat}
    (ran : (trial source target values best).run drawn = (.ok better, after)) :
    better.value < target + largest := by
  obtain ⟨first, first_ran, ended⟩ := trial_passes source nonneg fits reaches drawn
  have firstClose : first.Close target largest :=
    randomPass_close (by simpa [untaken] using values_le) (Pass.close_start targetPos largest best)
      first_ran
  rcases ended with ⟨reached, _, trial_eq⟩ | ⟨second, second_ran, tracks, trial_eq⟩
  · rw [trial_eq] at ran
    cases ran
    exact firstClose.close reached
  · rw [trial_eq] at ran
    cases ran
    have secondClose : second.Close target largest :=
      fillingPass_close (fun _ member => values_le _ (List.of_mem_zip member).1)
        (Pass.close_start firstClose.short largest first.best) second_ran
    exact secondClose.close (fillingPass_reached enough rfl tracks secondClose.short second_ran)

/-- One trial is enough, and more do not undo it. -/
theorem improve_close (nonneg : ∀ value ∈ values, 0 ≤ value) (fits : values.sum ≤ greatestSigned)
    (values_le : ∀ value ∈ values, value ≤ largest) (largestPos : 0 < largest)
    (targetPos : 0 < target) (enough : target ≤ values.sum) (reaches : best.Reaches values target)
    {count drawn after : Nat} (tried : 0 < count ∨ best.value < target + largest)
    (ran : (improve source target values count best).run drawn = (.ok better, after)) :
    better.value < target + largest := by
  induction count generalizing best drawn with
  | zero =>
      cases ran
      exact tried.resolve_left (lt_irrefl 0)
  | succ count ih =>
      rw [improve] at ran
      by_cases met : best.value = target
      · rw [if_pos met] at ran
        cases ran
        omega
      · obtain ⟨next, next_eq, nextReaches⟩ : ∃ next, (trial source target values best).run drawn =
            (.ok next, drawn + values.length) ∧ next.Reaches values target :=
          trial_run nonneg fits reaches drawn
        have nextClose := trial_close nonneg fits values_le targetPos enough reaches next_eq
        rw [if_neg met, Draw.run_bind_of_ok next_eq] at ran
        exact ih nextReaches (.inr nextClose) ran

/-- Whatever is drawn, the approximation of a target that some candidates reach
together finds a subset of them: it takes or leaves each candidate, its value is
their worth, and that reaches the target, is no more than all candidates are
worth, and exceeds the target by less than the largest candidate is worth.  A
whole number of times, a thousand at most, one word is drawn for every
candidate. -/
theorem approximate_subset_close {groups : List Candidate} {total target : Int}
    (positive : Positive groups) (fits : worth groups ≤ greatestSigned)
    (total_eq : total = worth groups) (targetPos : 0 < target) (enough : target ≤ total)
    (source : RandomSource) (drawn : Nat) :
    ∃ best rounds,
      (approximate source (groups.map effectiveValue) total target).run drawn =
          (.ok best, drawn + rounds * groups.length) ∧
        rounds ≤ 1000 ∧
        best.mask.length = groups.length ∧
        best.value = worth (masked groups best.mask) ∧
        target ≤ best.value ∧ best.value ≤ total ∧
        ∃ largest ∈ groups, (∀ other ∈ groups, other.effectiveValue ≤ largest.effectiveValue) ∧
          best.value < target + largest.effectiveValue := by
  subst total_eq
  have nonneg : ∀ value ∈ groups.map effectiveValue, 0 ≤ value := by
    simpa using fun candidate member => (positive candidate member).le
  obtain ⟨best, rounds, rounds_le, ran, reaches⟩ :=
    @approximate_run (groups.map effectiveValue) target source nonneg fits _ rfl enough drawn
  have nonempty : groups ≠ [] := by
    rintro rfl
    exact absurd (targetPos.trans_le enough) (lt_irrefl 0)
  obtain ⟨largest, found⟩ :=
    Option.ne_none_iff_exists'.mp (mt (List.argmax_eq_none (f := effectiveValue)).mp nonempty)
  have member : largest ∈ groups := List.argmax_mem found
  have largest_ge : ∀ other ∈ groups, other.effectiveValue ≤ largest.effectiveValue :=
    fun other otherMember => List.le_of_mem_argmax otherMember found
  have values_le : ∀ value ∈ groups.map effectiveValue, value ≤ largest.effectiveValue := by
    simpa using largest_ge
  rw [List.length_map] at ran
  refine ⟨best, rounds, ran, rounds_le, by simpa using reaches.length_eq, ?_, reaches.reaches, ?_,
    largest, member, largest_ge, ?_⟩
  · rw [worth_masked]
    exact reaches.value_eq
  · rw [reaches.value_eq]
    exact takenSum_le_sum nonneg best.mask
  · exact improve_close nonneg fits values_le (positive largest member) targetPos enough
      (Subset.reaches_all enough) (.inl (by decide)) ran

/-- Three candidates of decreasing value. -/
def threeCandidates : List Candidate :=
  [.free 0 300, .free 1 250, .free 2 150]

/-- If every toss is heads, 400 out of 300, 250 and 150 leaves less than 700. -/
theorem approximate_subset_close_threeCandidates :
    ∃ best rounds,
      (approximate (fun _ => 0) [300, 250, 150] 700 400).run 0 = (.ok best, 0 + rounds * 3) ∧
        rounds ≤ 1000 ∧ best.mask.length = 3 ∧ 400 ≤ best.value ∧ best.value < 700 := by
  have positive : Positive threeCandidates := by
    unfold Positive
    decide +kernel
  have total_eq : (700 : Int) = worth threeCandidates := by decide +kernel
  obtain ⟨best, rounds, ran, rounds_le, length_eq, -, reaches, -, largest, member, -, close⟩ :=
    approximate_subset_close positive (by decide +kernel) total_eq (by decide : (0 : Int) < 400)
      (by decide) (fun _ => 0) 0
  have values_le : ∀ candidate ∈ threeCandidates, candidate.effectiveValue ≤ 300 := by
    decide +kernel
  have largest_le := values_le largest member
  exact ⟨best, rounds, ran, rounds_le, length_eq, reaches, by omega⟩

end Trial

end CoinSelection.Knapsack
