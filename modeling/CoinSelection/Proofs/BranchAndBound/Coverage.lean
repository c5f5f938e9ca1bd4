import CoinSelection.Proofs.BranchAndBound.Visits

/-!
# What a search has covered

The search visits the tree of decisions in order, selecting before omitting.  A
place therefore divides the complete decisions into three parts: those that it
has passed, since they select a candidate that it omits; those below it; and
those still to come.

What is known of every complete decision that was passed is known of all of
them once the search is exhausted.  A shortcut is harmless if it keeps this
knowledge: a node may be given up if the same is known of everything below it,
and a candidate may be skipped if the same is known after exchanging it with
its equal.
-/

namespace CoinSelection.BranchAndBound

open Candidate

/-! ## Complete decisions -/

/-- Decisions, latest first, about all candidates in their order. -/
def Completes (candidates : List Candidate) (whole : List Decision) : Prop :=
  whole.reverse.map Prod.fst = candidates

section Completes

variable {candidates part : List Candidate} {whole later decided earlier : List Decision}

theorem Completes.chosen_sublist (completes : Completes candidates whole) :
    (chosen whole).Sublist candidates := by
  rw [← completes]
  exact (List.filter_sublist (p := fun decision : Decision => decision.2)).map Prod.fst

/-- Every part of the candidates is selected by complete decisions. -/
theorem exists_completes (sublist : part.Sublist candidates) :
    ∃ whole, Completes candidates whole ∧ chosen whole = part := by
  suffices general : ∃ decisions : List Decision, decisions.map Prod.fst = candidates ∧
      (decisions.filter fun decision => decision.2).map Prod.fst = part by
    obtain ⟨decisions, all, selected⟩ := general
    refine ⟨decisions.reverse, ?_, ?_⟩
    · rw [Completes, List.reverse_reverse, all]
    · rw [chosen, List.reverse_reverse, selected]
  induction sublist with
  | slnil => exact ⟨[], rfl, rfl⟩
  | cons candidate _ ih =>
      obtain ⟨decisions, rfl, rfl⟩ := ih
      exact ⟨(candidate, false) :: decisions, rfl, rfl⟩
  | cons_cons candidate _ ih =>
      obtain ⟨decisions, rfl, rfl⟩ := ih
      exact ⟨(candidate, true) :: decisions, rfl, rfl⟩

/-- What complete decisions say after a place is about its undecided
candidates. -/
theorem Completes.later_eq (place : Place) (completes : Completes place.candidates whole)
    (below : later ++ place.decided = whole) : later.reverse.map Prod.fst = place.undecided := by
  rw [Completes, ← below, List.reverse_append, List.map_append, Place.candidates] at completes
  exact List.append_cancel_left completes

/-- Complete decisions below a place either select or omit its next candidate. -/
theorem Completes.next {candidate : Candidate} {rest : List Candidate}
    (completes : Completes (Place.candidates ⟨decided, candidate :: rest⟩) whole)
    (below : decided <:+ whole) :
    (candidate, true) :: decided <:+ whole ∨ (candidate, false) :: decided <:+ whole := by
  obtain ⟨later, split⟩ := below
  have later_eq := completes.later_eq ⟨decided, candidate :: rest⟩ split
  rcases List.eq_nil_or_concat later with rfl | ⟨front, ⟨decidedNext, taken⟩, rfl⟩
  · cases later_eq
  · rw [List.concat_eq_append, List.reverse_append, List.map_append] at later_eq
    obtain ⟨rfl, _⟩ := List.cons.inj later_eq
    have extends_next : (decidedNext, taken) :: decided <:+ whole :=
      ⟨front, by simpa using split⟩
    cases taken with
    | true => exact .inl extends_next
    | false => exact .inr extends_next

end Completes

/-! ## Passed decisions -/

/-- Complete decisions that agree with the first decisions of a place and then
select a candidate that the place omits. -/
def Passed : List Decision → List Decision → Prop
  | [], _ => False
  | (candidate, taken) :: earlier, whole =>
      Passed earlier whole ∨ taken = false ∧ (candidate, true) :: earlier <:+ whole

section Passed

variable {candidate : Candidate} {earlier decided whole : List Decision}
  {undecided : List Candidate}

@[simp]
theorem not_passed_nil : ¬ Passed [] whole :=
  not_false

@[simp]
theorem passed_selected_iff :
    Passed ((candidate, true) :: earlier) whole ↔ Passed earlier whole := by
  simp [Passed]

@[simp]
theorem passed_omitted_iff :
    Passed ((candidate, false) :: earlier) whole ↔
      Passed earlier whole ∨ (candidate, true) :: earlier <:+ whole := by
  simp [Passed]

/-- Retreating passes what is below a place and nothing else.  If there is
nothing to retreat to, everything is passed or below. -/
theorem passed_or_below
    (completes : Completes (Place.candidates ⟨decided, undecided⟩) whole)
    (passed : ∀ next, Place.retreatFrom decided undecided = some next →
      Passed next.decided whole) :
    Passed decided whole ∨ decided <:+ whole := by
  fun_induction Place.retreatFrom decided undecided with
  | case1 => exact .inr List.nil_suffix
  | case2 candidate earlier undecided ih =>
      have same : Completes (Place.candidates ⟨earlier, candidate :: undecided⟩) whole := by
        simpa [Place.candidates] using completes
      rcases ih same passed with passed | below
      · exact .inl (passed_omitted_iff.mpr (.inl passed))
      · rcases same.next below with selects | omits
        · exact .inl (passed_omitted_iff.mpr (.inr selects))
        · exact .inr omits
  | case3 candidate earlier undecided =>
      rcases passed_omitted_iff.mp (passed _ rfl) with passed | below
      · exact .inl (passed_selected_iff.mpr passed)
      · exact .inr below

end Passed

/-! ## Exchanging equals -/

section Exchange

variable {previous candidate : Candidate} {earlier whole : List Decision}
  {candidates : List Candidate}

/-- Select the earlier of two neighbours in place of the later one. -/
def exchange (later : List Decision) (previous candidate : Candidate) (earlier : List Decision) :
    List Decision :=
  later ++ (candidate, false) :: (previous, true) :: earlier

theorem Completes.exchange {later : List Decision}
    (completes : Completes candidates
      (later ++ (candidate, true) :: (previous, false) :: earlier)) :
    Completes candidates (BranchAndBound.exchange later previous candidate earlier) := by
  rw [← completes]
  simp [Completes, BranchAndBound.exchange]

/-- The exchange was passed where the earlier neighbour is omitted. -/
theorem passed_exchange (later : List Decision) (previous candidate : Candidate)
    (earlier : List Decision) :
    Passed ((previous, false) :: earlier) (exchange later previous candidate earlier) := by
  refine passed_omitted_iff.mpr (.inr ?_)
  exact ⟨later ++ [(candidate, false)], by simp [exchange]⟩

end Exchange

/-! ## What an exhausted search knows -/

/-- Knowledge about complete decisions, given the best selection, that a search
gains where it turns back at a sound visit, and does not lose. -/
structure Goal.Learns (goal : Goal) (candidates : List Candidate) (sound : Best → Place → Prop)
    (knows : Best → List Decision → Prop) : Prop where
  keeps : ∀ {best place whole}, place.candidates = candidates → knows best whole →
    knows (goal.visit best place).1 whole
  /-- Everything below a place is known where the search turns back. -/
  turns : ∀ {best place whole}, place.candidates = candidates → sound best place →
    goal.verdict best.waste place ≠ .below → Completes candidates whole →
      place.decided <:+ whole → knows (goal.visit best place).1 whole
  /-- What is known of decisions is known after exchanging equals. -/
  exchanges : goal.skipsEqual = true → ∀ {best later previous candidate earlier},
    previous.effectiveValue = candidate.effectiveValue → previous.fee = candidate.fee →
      Completes candidates (later ++ (candidate, true) :: (previous, false) :: earlier) →
        knows best (exchange later previous candidate earlier) →
          knows best (later ++ (candidate, true) :: (previous, false) :: earlier)

section Learns

variable {goal : Goal} {candidates : List Candidate} {sound : Best → Place → Prop}
  {knows : Best → List Decision → Prop} {best : Best} {place next : Place}

/-- A candidate is skipped only behind its equal. -/
theorem Node.repeatsOmission_eq_true {decided : List Decision} {candidate : Candidate}
    (repeats : Node.repeatsOmission decided candidate = true) :
    ∃ previous earlier, decided = (previous, false) :: earlier ∧
      previous.effectiveValue = candidate.effectiveValue ∧ previous.fee = candidate.fee := by
  unfold Node.repeatsOmission at repeats
  split at repeats
  · rename_i previous earlier
    simp only [Bool.and_eq_true, beq_iff_eq] at repeats
    exact ⟨previous, earlier, rfl, repeats⟩
  · cases repeats

/-- Advancing loses no knowledge of what was passed. -/
theorem Goal.Learns.advance (learns : goal.Learns candidates sound knows)
    (passed : ∀ whole, Completes candidates whole → Passed place.decided whole →
      knows best whole)
    (moved : place.advance goal.skipsEqual = some next) {whole : List Decision}
    (completes : Completes candidates whole) (nextPassed : Passed next.decided whole) :
    knows best whole := by
  obtain ⟨decided, undecided⟩ := place
  cases undecided with
  | nil => cases moved
  | cons candidate rest =>
      cases moved
      cases skips : goal.skipsEqual && Node.repeatsOmission decided candidate with
      | false =>
          simp only [skips, Bool.not_false, passed_selected_iff] at nextPassed
          exact passed whole completes nextPassed
      | true =>
          simp only [skips, Bool.not_true, passed_omitted_iff] at nextPassed
          rcases nextPassed with before | ⟨later, rfl⟩
          · exact passed whole completes before
          · rw [Bool.and_eq_true] at skips
            obtain ⟨previous, earlier, rfl, sameValue, sameFee⟩ :=
              Node.repeatsOmission_eq_true skips.2
            have known := passed _ completes.exchange
              (passed_exchange later previous candidate earlier)
            exact learns.exchanges skips.1 sameValue sameFee completes known

/-- One visit gains the knowledge of what it passes.  If there is no next place,
that is everything. -/
theorem Goal.Learns.visit (learns : goal.Learns candidates sound knows)
    (all : place.candidates = candidates) (soundHere : sound best place)
    (passed : ∀ whole, Completes candidates whole → Passed place.decided whole →
      knows best whole) {whole : List Decision} (completes : Completes candidates whole)
    (beyond : ∀ next, (goal.visit best place).2 = some next → Passed next.decided whole) :
    knows (goal.visit best place).1 whole := by
  by_cases below : goal.verdict best.waste place = .below
  · obtain ⟨next, moved⟩ := exists_advance below
    have visited : goal.visit best place = (best, some next) := by
      rw [Goal.visit, below, moved]
    rw [visited] at beyond ⊢
    exact learns.advance passed moved completes (beyond next rfl)
  · have retreats : (goal.visit best place).2 = place.retreat := by
      unfold Goal.visit
      cases judged : goal.verdict best.waste place with
      | below => exact absurd judged below
      | dead => rfl
      | hit waste => rfl
    rw [retreats] at beyond
    rcases passed_or_below (all ▸ completes) beyond with before | under
    · exact learns.keeps all (passed whole completes before)
    · exact learns.turns all soundHere below completes under

/-- Whatever a search learns it knows of all complete decisions once it is
exhausted. -/
theorem Goal.Learns.explore (learns : goal.Learns candidates sound knows) {tries : Nat}
    (all : place.candidates = candidates)
    (soundVisits : ∀ visited ∈ goal.visits tries best place, sound visited.1 visited.2)
    (passed : ∀ whole, Completes candidates whole → Passed place.decided whole →
      knows best whole)
    (exhausted : (goal.explore tries best place).exhausted = true) {whole : List Decision}
    (completes : Completes candidates whole) :
    knows (goal.explore tries best place).best whole := by
  induction tries generalizing best place with
  | zero => cases exhausted
  | succ tries ih =>
      have soundHere : sound best place := soundVisits _ List.mem_cons_self
      have visitPassed := fun whole (completes : Completes candidates whole) =>
        learns.visit all soundHere passed completes
      cases visited : goal.visit best place with
      | mk better next =>
          rw [visited] at visitPassed
          cases next with
          | none =>
              rw [explore_of_last visited]
              exact visitPassed whole completes fun _ nothing => by cases nothing
          | some next =>
              rw [visits_of_next visited, List.forall_mem_cons] at soundVisits
              rw [explore_of_next visited] at exhausted ⊢
              refine ih ((visit_candidates visited).trans all) soundVisits.2 ?_ exhausted
              intro other otherCompletes nextPassed
              refine visitPassed other otherCompletes fun place found => ?_
              cases found
              exact nextPassed

/-- A search from the start has passed nothing yet, and in the end everything. -/
theorem Goal.Learns.explore_start (learns : goal.Learns candidates sound knows) {tries : Nat}
    (soundVisits : ∀ visited ∈ goal.visits tries {} (.start candidates),
      sound visited.1 visited.2)
    (exhausted : (goal.explore tries {} (.start candidates)).exhausted = true)
    {whole : List Decision} (completes : Completes candidates whole) :
    knows (goal.explore tries {} (.start candidates)).best whole :=
  learns.explore (Place.start_candidates candidates) soundVisits
    (fun _ _ passed => absurd passed not_passed_nil) exhausted completes

end Learns

end CoinSelection.BranchAndBound
