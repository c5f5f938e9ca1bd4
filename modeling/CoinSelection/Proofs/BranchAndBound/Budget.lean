import CoinSelection.Proofs.BranchAndBound.Irredundance
import CoinSelection.Proofs.BranchAndBound.Refusal

/-!
# The budget of a search

Decisions about `n` candidates, one after the other, form a tree of
`2 ^ (n + 1) - 1` nodes.  A search goes through it in one order, selecting
before omitting, and each of its steps leaves a node behind for good: advancing
leaves the node itself, retreating leaves everything below it.  The number of
nodes ahead therefore falls at every visit, so no node is visited twice, and the
search is exhausted once it may visit as many nodes as there are.  For fifteen
candidates these are fewer than branch and bound may visit.
-/

namespace CoinSelection.BranchAndBound

open Candidate Checked Outcome

/-! ## Nodes ahead of a place -/

/-- The number of nodes in the tree of decisions about some candidates. -/
def treeSize (count : Nat) : Nat :=
  2 ^ (count + 1) - 1

theorem treeSize_succ (count : Nat) : treeSize (count + 1) = 2 * treeSize count + 1 := by
  have pos : 0 < 2 ^ (count + 1) := Nat.two_pow_pos (count + 1)
  rw [treeSize, treeSize, Nat.pow_succ 2 (count + 1)]
  omega

theorem treeSize_pos (count : Nat) : 0 < treeSize count := by
  cases count with
  | zero => decide
  | succ count =>
      rw [treeSize_succ]
      exact Nat.succ_pos _

/-- The number of nodes that follow all those below some decisions, latest
first, with `count` candidates undecided: wherever the decisions select a
candidate, the nodes that leave it out are still to come. -/
def sizeAfter : List Bool → Nat → Nat
  | [], _ => 0
  | true :: earlier, count => treeSize count + sizeAfter earlier (count + 1)
  | false :: earlier, count => sizeAfter earlier (count + 1)

/-- Whether each of some decisions selects its candidate. -/
def pattern (decided : List Decision) : List Bool :=
  decided.map Prod.snd

/-- The number of nodes from a place on. -/
def Place.ahead (place : Place) : Nat :=
  treeSize place.undecided.length + sizeAfter (pattern place.decided) place.undecided.length

section Ahead

variable {goal : Goal} {best better : Best} {place next other : Place} {tries : Nat}

theorem Place.ahead_pos (place : Place) : 0 < place.ahead :=
  Nat.add_pos_left (treeSize_pos _) _

@[simp]
theorem Place.ahead_start (candidates : List Candidate) :
    (Place.start candidates).ahead = treeSize candidates.length :=
  rfl

/-- Advancing leaves the node itself behind. -/
theorem Place.ahead_advance {skipEqual : Bool} (moved : place.advance skipEqual = some next) :
    next.ahead < place.ahead := by
  obtain ⟨decided, undecided⟩ := place
  cases undecided with
  | nil => cases moved
  | cons candidate rest =>
      cases moved
      have size_eq := treeSize_succ rest.length
      have size_pos := treeSize_pos rest.length
      simp only [Place.ahead, pattern, List.map_cons, List.length_cons]
      cases skipEqual && Node.repeatsOmission decided candidate <;>
        simp only [Bool.not_false, Bool.not_true, sizeAfter] <;> omega

/-- Retreating leaves behind everything below the decisions. -/
theorem Place.ahead_retreatFrom {decided : List Decision} {undecided : List Candidate}
    (moved : Place.retreatFrom decided undecided = some next) :
    next.ahead = sizeAfter (pattern decided) undecided.length := by
  fun_induction Place.retreatFrom decided undecided with
  | case1 => cases moved
  | case2 undecided candidate earlier ih => exact ih moved
  | case3 undecided candidate earlier =>
      cases moved
      rfl

theorem Place.ahead_retreat (moved : place.retreat = some next) : next.ahead < place.ahead := by
  rw [Place.ahead_retreatFrom moved, Place.ahead]
  exact Nat.lt_add_of_pos_left (treeSize_pos _)

/-- Every visit leaves a node behind. -/
theorem visit_ahead (visited : goal.visit best place = (better, some next)) :
    next.ahead < place.ahead := by
  unfold Goal.visit at visited
  split at visited <;> rw [Prod.mk.injEq] at visited
  · exact Place.ahead_advance visited.2
  · exact Place.ahead_retreat visited.2
  · exact Place.ahead_retreat visited.2

/-! ## Visits in order -/

/-- Fewer nodes are ahead of each visit than of those before it. -/
theorem visits_pairwise_ahead (tries : Nat) :
    (goal.visits tries best place).Pairwise
      fun earlier later => later.2.ahead < earlier.2.ahead := by
  induction tries generalizing best place with
  | zero => exact List.Pairwise.nil
  | succ tries ih =>
      cases visited : goal.visit best place with
      | mk better next =>
          cases next with
          | none =>
              rw [visits_of_last visited]
              exact List.pairwise_singleton _ _
          | some next =>
              rw [visits_of_next visited, List.pairwise_cons]
              have next_lt := visit_ahead visited
              have least : ∀ later ∈ goal.visits tries better next, later.2.ahead ≤ next.ahead := by
                refine visits_keep (fun _ later => later.ahead ≤ next.ahead) ?_ le_rfl
                intro earlier _ le _ later moved
                exact (visit_ahead moved).le.trans le
              exact ⟨fun later member => (least later member).trans_lt next_lt, ih⟩

/-- A search makes no more visits than there are nodes ahead. -/
theorem length_visits_le (tries : Nat) : (goal.visits tries best place).length ≤ place.ahead := by
  induction tries generalizing best place with
  | zero => exact Nat.zero_le _
  | succ tries ih =>
      cases visited : goal.visit best place with
      | mk better next =>
          cases next with
          | none =>
              rw [visits_of_last visited]
              exact place.ahead_pos
          | some next =>
              rw [visits_of_next visited, List.length_cons]
              exact (Nat.succ_le_succ ih).trans (visit_ahead visited)

/-- A search that may visit all nodes ahead is exhausted. -/
theorem explore_exhausted (enough : place.ahead ≤ tries) :
    (goal.explore tries best place).exhausted = true := by
  induction tries generalizing best place with
  | zero => exact absurd enough (Nat.not_le.mpr place.ahead_pos)
  | succ tries ih =>
      cases visited : goal.visit best place with
      | mk better next =>
          cases next with
          | none => rw [explore_of_last visited]
          | some next =>
              rw [explore_of_next visited]
              exact ih (Nat.le_of_lt_succ ((visit_ahead visited).trans_le enough))

/-- Places of one search with the same pattern have the same nodes ahead. -/
theorem Place.ahead_eq (sameCandidates : place.candidates = other.candidates)
    (samePattern : pattern place.decided = pattern other.decided) : place.ahead = other.ahead := by
  have decidedLength : place.decided.length = other.decided.length := by
    simpa [pattern] using congrArg List.length samePattern
  have undecidedLength : place.undecided.length = other.undecided.length := by
    have total := congrArg List.length sameCandidates
    simp only [Place.candidates, List.length_append, List.length_map, List.length_reverse] at total
    omega
  rw [Place.ahead, Place.ahead, samePattern, undecidedLength]

/-- No two visits are made to the same decisions. -/
theorem visits_nodup (tries : Nat) :
    ((goal.visits tries best place).map fun visited => pattern visited.2.decided).Nodup := by
  rw [List.Nodup, List.pairwise_map]
  refine (visits_pairwise_ahead tries).imp_of_mem ?_
  intro earlier later earlierMember laterMember less same
  have sameCandidates : earlier.2.candidates = later.2.candidates := by
    rw [visits_candidates tries earlier earlierMember, visits_candidates tries later laterMember]
  exact less.ne' (Place.ahead_eq sameCandidates same)

/-- A search goes through no node twice, and through no more than there are. -/
theorem trace_nodup (tries : Nat) :
    ((goal.trace tries best place.node).map fun node => pattern node.decided).Nodup ∧
      (goal.trace tries best place.node).length ≤ place.ahead := by
  have sublist : (goal.trace tries best place.node).Sublist
      ((goal.visits tries best place).map fun visited => visited.2.node) := trace_sublist tries
  constructor
  · have patterns := sublist.map fun node => pattern node.decided
    rw [List.map_map] at patterns
    exact (visits_nodup tries).sublist patterns
  · exact (sublist.length_le.trans_eq (List.length_map _)).trans (length_visits_le tries)

end Ahead

/-! ## Searches that do not fail -/

section Search

variable {pruning : Pruning} {tries costOfChange target : Nat} {candidates : List Candidate}

theorem not_refuses_forM_requireWorth (candidates : List Candidate) :
    ¬ Refuses (candidates.forM requireWorth) := by
  induction candidates with
  | nil => exact not_refuses_ok ()
  | cons candidate rest ih =>
      rw [List.forM_eq_forM] at ih ⊢
      have worthwhile : ¬ Refuses (requireWorth candidate) := by
        unfold requireWorth abort
        split <;> simp
      simp [refuses_bind_iff, worthwhile, ih]

/-- A search that does not abort is one of candidates that are worth spending,
and whose worth fits. -/
theorem positive_of_not_aborts
    (finished : ¬ (search pruning tries costOfChange candidates target).Aborts) :
    Positive candidates ∧ worth candidates ≤ greatestSigned := by
  rw [search] at finished
  obtain ⟨⟨⟩, worthwhile, rest⟩ := bind_eq_next (not_refuses_forM_requireWorth candidates) finished
  rw [rest] at finished
  obtain ⟨available, summed, _⟩ := bind_eq_next (not_refuses_sumSigned _) finished
  obtain ⟨fits, rfl⟩ := sumSigned_eq_sum summed
  exact ⟨forM_requireWorth_eq_ok_iff.mp worthwhile, fits.2⟩

/-- A search that does not abort reports, if the candidates reach the target. -/
theorem exists_report (enough : (target : Int) ≤ worth candidates)
    (finished : ¬ (search pruning tries costOfChange candidates target).Aborts) :
    ∃ report, search pruning tries costOfChange candidates target = .ok report := by
  obtain ⟨positive, fits⟩ := positive_of_not_aborts finished
  refine exists_ok ?_ finished
  rw [search_of_le positive fits enough]
  simp [refuses_bind_iff, not_refuses_firstWaste, not_refuses_run]

/-- A search that may visit the whole tree is exhausted. -/
theorem exhausted_of_search {report : Report} (enough : treeSize candidates.length ≤ tries)
    (searched : search pruning tries costOfChange candidates target = .ok report) :
    report.exhausted = true := by
  obtain ⟨positive, fits⟩ := positive_of_search searched
  obtain ⟨_, first, _, rfl⟩ := exists_explore positive fits searched
  refine explore_exhausted ?_
  rwa [Place.ahead_start, (largestFirst_perm candidates).length_eq]

/-- Branch and bound may visit the whole tree for fifteen candidates. -/
theorem treeSize_le_totalTries (few : candidates.length ≤ 15) :
    treeSize candidates.length ≤ totalTries := by
  have power_le : 2 ^ (candidates.length + 1) ≤ 2 ^ 16 :=
    Nat.pow_le_pow_right (by decide) (Nat.succ_le_succ few)
  unfold treeSize totalTries
  omega

end Search

/-! ## The budget of branch and bound -/

section Budget

variable {candidates : List Candidate} {costOfChange target : Nat}

/-- Some of the candidates are together worth the target, and no more than the
target and the cost of change. -/
def HasMatch (candidates : List Candidate) (costOfChange target : Nat) : Prop :=
  ∃ part : List Candidate, part.Subperm candidates ∧ (target : Int) ≤ worth part ∧
    worth part ≤ target + costOfChange

/-- Branch and bound aborts where its search does. -/
theorem search_not_aborts_of_select
    (finished : ¬ (select costOfChange candidates target).Aborts) :
    ¬ (search {} totalTries costOfChange candidates target).Aborts :=
  fun aborts => finished (aborts_bind_iff.mpr (.inl aborts))

/-- Branch and bound does not run out of visits for fifteen candidates, whatever
they are worth. -/
theorem select_ne_triesExceeded (few : candidates.length ≤ 15) :
    select costOfChange candidates target ≠ refuse .triesExceeded := by
  intro refused
  have finished : ¬ (select costOfChange candidates target).Aborts := by
    rw [refused]
    exact not_aborts_error _
  obtain ⟨positive, fits⟩ := positive_of_not_aborts (search_not_aborts_of_select finished)
  rcases (select_eq_refuse_iff positive fits).mp refused with
    ⟨_, different⟩ | ⟨report, searched, _, reason⟩
  · cases different
  · have exhausted := exhausted_of_search (treeSize_le_totalTries few) searched
    simp [exhausted] at reason

/-- For fifteen candidates that reach the target together, branch and bound
selects exactly if there is a match, and else says that there is none. -/
theorem select_iff_hasMatch (few : candidates.length ≤ 15)
    (enough : (target : Int) ≤ worth candidates)
    (finished : ¬ (search {} totalTries costOfChange candidates target).Aborts) :
    ((∃ selected, select costOfChange candidates target = .ok selected) ↔
        HasMatch candidates costOfChange target) ∧
      (select costOfChange candidates target = refuse .noExactMatch ↔
        ¬ HasMatch candidates costOfChange target) := by
  obtain ⟨positive, fits⟩ := positive_of_not_aborts finished
  obtain ⟨report, searched⟩ := exists_report enough finished
  have exhausted := exhausted_of_search (treeSize_le_totalTries few) searched
  have selects_of_match (found : HasMatch candidates costOfChange target) :
      ∃ selected, select costOfChange candidates target = .ok selected := by
    obtain ⟨part, subperm, target_le, le_limit⟩ := found
    obtain ⟨selected, found⟩ := search_finds searched exhausted subperm target_le le_limit
    exact ⟨selected, select_eq_ok_iff.mpr ⟨report, searched, found⟩⟩
  have match_of_selects {selected : List Candidate}
      (selects : select costOfChange candidates target = .ok selected) :
      HasMatch candidates costOfChange target := by
    obtain ⟨sublist, target_le, le_limit⟩ := select_sound positive fits selects
    exact ⟨selected, sublist.subperm.trans (largestFirst_perm candidates).subperm, target_le,
      le_limit⟩
  refine ⟨⟨fun ⟨_, selects⟩ => match_of_selects selects, selects_of_match⟩, ?_, ?_⟩
  · intro refused found
    obtain ⟨selected, selects⟩ := selects_of_match found
    rw [refused] at selects
    cases selects
  · intro none
    rw [select, searched, ok_bind, Report.selection_eq_refuse_iff]
    refine ⟨?_, by simp [exhausted]⟩
    rw [Option.eq_none_iff_forall_ne_some]
    intro selected found
    exact none (match_of_selects (select_eq_ok_iff.mpr ⟨report, searched, found⟩))

/-- A search for a target visits no decisions twice, and no more of them than
the tree of decisions has.  If its sums fit, it does not abort, and if it does
not, it is exhausted once it may visit them all.  So for fifteen candidates
branch and bound never runs out of visits: where they reach the target together
it selects exactly if there is a match, and else says that there is none. -/
theorem search_budget (candidates : List Candidate) (costOfChange target : Nat) :
    (∀ first tries,
      let nodes := (Goal.above {} target costOfChange first).trace tries {}
        (.root (largestFirst candidates) (worth candidates))
      (nodes.map fun node => pattern node.decided).Nodup ∧
        nodes.length ≤ 2 ^ (candidates.length + 1) - 1) ∧
    (SumsFit candidates target →
      ∀ tries, ¬ (search {} tries costOfChange candidates target).Aborts) ∧
    ((target : Int) ≤ worth candidates →
      ∀ tries, 2 ^ (candidates.length + 1) - 1 ≤ tries →
        ¬ (search {} tries costOfChange candidates target).Aborts →
          ∃ report, search {} tries costOfChange candidates target = .ok report ∧
            report.exhausted = true) ∧
    (candidates.length ≤ 15 →
      select costOfChange candidates target ≠ refuse .triesExceeded ∧
        ((target : Int) ≤ worth candidates →
          ¬ (search {} totalTries costOfChange candidates target).Aborts →
            ((∃ selected, select costOfChange candidates target = .ok selected) ↔
                HasMatch candidates costOfChange target) ∧
              (select costOfChange candidates target = refuse .noExactMatch ↔
                ¬ HasMatch candidates costOfChange target))) := by
  refine ⟨fun first tries => ?_, fun fits tries => search_not_aborts fits {} tries costOfChange,
    fun enough tries all finished => ?_,
    fun few => ⟨select_ne_triesExceeded few, select_iff_hasMatch few⟩⟩
  · have perm := largestFirst_perm candidates
    have root_eq : Node.root (largestFirst candidates) (worth candidates) =
        (Place.start (largestFirst candidates)).node := by
      rw [← worth_perm perm]
      rfl
    have size_eq : 2 ^ (candidates.length + 1) - 1 =
        (Place.start (largestFirst candidates)).ahead := by
      rw [Place.ahead_start, perm.length_eq]
      rfl
    rw [root_eq, size_eq]
    exact trace_nodup tries
  · obtain ⟨report, searched⟩ := exists_report enough finished
    exact ⟨report, searched, exhausted_of_search all searched⟩

/-- The tree of four candidates has thirty-one nodes. -/
theorem search_budget_fourCandidates :
    (∃ report, search {} 31 10 fourCandidates 400 = .ok report ∧ report.exhausted = true) ∧
      select 10 fourCandidates 400 ≠ refuse .triesExceeded ∧
      ∃ selected, select 10 fourCandidates 400 = .ok selected := by
  have economic : Candidate.Economic fourCandidates :=
    ⟨by unfold Positive; decide +kernel, by decide +kernel, by decide +kernel⟩
  have sumsFit : SumsFit fourCandidates 400 :=
    sumsFit_of_economic economic (by decide +kernel) 400
  have hasMatch : HasMatch fourCandidates 10 400 :=
    ⟨[Candidate.free 1 250, Candidate.free 2 150],
      (List.Sublist.cons _ (.cons_cons _ (.cons_cons _ (List.nil_sublist _)))).subperm,
      by decide +kernel, by decide +kernel⟩
  have enough : ((400 : Nat) : Int) ≤ worth fourCandidates := by decide +kernel
  obtain ⟨_, notAborts, reports, selects⟩ := search_budget fourCandidates 10 400
  have answers := (selects (by decide)).2 enough (notAborts sumsFit totalTries)
  exact ⟨reports enough 31 (by decide) (notAborts sumsFit 31), (selects (by decide)).1,
    answers.1.mpr hasMatch⟩

end Budget

end CoinSelection.BranchAndBound
