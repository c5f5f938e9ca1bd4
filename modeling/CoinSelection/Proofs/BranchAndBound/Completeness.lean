import CoinSelection.Proofs.BranchAndBound.Coverage
import CoinSelection.Proofs.BranchAndBound.Selection

/-!
# Completeness of a search

An exhausted search has found a selection if any part of the candidates is in
the window.  Where the search turns back above such a part, it has either found
a selection before, of less waste, or it finds one there.
-/

namespace CoinSelection.BranchAndBound

open Candidate Checked

section Turning

variable {goal : Goal} {candidates : List Candidate} {best : Best} {place : Place}
  {whole : List Decision}

/-! ## The best selection -/

theorem Best.record_waste_le_left (best : Best) (decisions : List Decision) (waste : Int) :
    (best.record decisions waste).waste ≤ waste := by
  unfold record
  split
  · exact le_rfl
  · exact (not_le.mp ‹_›).le

theorem Best.record_waste_le (best : Best) (decisions : List Decision) (waste : Int) :
    (best.record decisions waste).waste ≤ best.waste := by
  unfold record
  split
  · assumption
  · exact le_rfl

/-- The least waste only falls. -/
theorem visit_waste_le (goal : Goal) (best : Best) (place : Place) :
    (goal.visit best place).1.waste ≤ best.waste := by
  unfold Goal.visit
  cases goal.verdict best.waste place with
  | below => exact le_rfl
  | dead => exact le_rfl
  | hit waste => exact best.record_waste_le place.decided waste

/-! ## Where the search turns back -/

/-- What complete decisions select below a place is what the place selects and
a part of what it leaves undecided. -/
theorem exists_chosen_below (completes : Completes place.candidates whole)
    (below : place.decided <:+ whole) :
    ∃ added : List Candidate, added.Sublist place.undecided ∧
      chosen whole = chosen place.decided ++ added := by
  obtain ⟨later, rfl⟩ := below
  refine ⟨chosen later, ?_, chosen_append later place.decided⟩
  rw [← completes.later_eq place rfl]
  exact (List.filter_sublist (p := fun decision : Decision => decision.2)).map Prod.fst

/-- Above a selection in the window the search turns back for two reasons only:
it has a selection of less waste, or it is in the window already. -/
theorem verdict_of_turn (positive : Positive place.candidates) {leastWaste : Int}
    (turns : goal.verdict leastWaste place ≠ .below)
    (completes : Completes place.candidates whole) (below : place.decided <:+ whole)
    (admits : goal.Admits place.candidates (chosen whole)) :
    goal.verdict leastWaste place = .dead ∧ goal.boundsWaste = true ∧
        leastWaste < totalWaste (chosen place.decided) ∨
      goal.verdict leastWaste place = .hit
          (totalWaste (chosen place.decided) + (worth (chosen place.decided) - goal.target)) ∧
        goal.target ≤ worth (chosen place.decided) := by
  obtain ⟨added, sublist, chosen_eq⟩ := exists_chosen_below completes below
  have undecidedPositive := positive.subset place.undecided_sublist.subset
  have added_nonneg := (undecidedPositive.subset sublist.subset).worth_nonneg
  have added_le := undecidedPositive.worth_le sublist.subperm
  have target_le := admits.target_le
  have le_limit := admits.le_limit
  rw [chosen_eq, worth_append] at target_le le_limit
  have value_eq : place.node.value = worth (chosen place.decided) := rfl
  have available_eq : place.node.available = worth place.undecided := rfl
  unfold Goal.verdict at turns ⊢
  dsimp only at turns ⊢
  by_cases bounded : goal.boundsWaste = true ∧ leastWaste < place.node.waste
  · left
    exact ⟨if_pos (.inr (.inr bounded)), bounded⟩
  · right
    have alive : ¬ (place.node.value + place.node.available < goal.target ∨
        goal.limit < place.node.value ∨
          goal.boundsWaste = true ∧ leastWaste < place.node.waste) := by
      rintro (short | above | bounds)
      · omega
      · omega
      · exact bounded bounds
    rw [if_neg alive] at turns ⊢
    by_cases reached : goal.target ≤ place.node.value
    · exact ⟨if_pos reached, reached⟩
    · rw [if_neg reached] at turns
      exact absurd rfl turns

/-- The best selection after turning back there. -/
theorem turn_cases (positive : Positive place.candidates)
    (turns : goal.verdict best.waste place ≠ .below)
    (completes : Completes place.candidates whole) (below : place.decided <:+ whole)
    (admits : goal.Admits place.candidates (chosen whole)) :
    goal.boundsWaste = true ∧ best.waste < totalWaste (chosen place.decided) ∧
        (goal.visit best place).1 = best ∨
      goal.target ≤ worth (chosen place.decided) ∧
        (goal.visit best place).1 = best.record place.decided
          (totalWaste (chosen place.decided) + (worth (chosen place.decided) - goal.target)) := by
  rcases verdict_of_turn positive turns completes below admits with
    ⟨judged, bounds, less⟩ | ⟨judged, reached⟩
  · exact .inl ⟨bounds, less, by rw [Goal.visit, judged]⟩
  · exact .inr ⟨reached, by rw [Goal.visit, judged]⟩

end Turning

/-! ## Exchanging equals -/

section Exchange

variable {goal : Goal} {candidates : List Candidate} {previous candidate : Candidate}
  {later earlier : List Decision}

/-- Equals are worth the same, so an exchange does not leave the window. -/
theorem admits_exchange (sameValue : previous.effectiveValue = candidate.effectiveValue)
    (completes : Completes candidates (later ++ (candidate, true) :: (previous, false) :: earlier))
    (admits : goal.Admits candidates
      (chosen (later ++ (candidate, true) :: (previous, false) :: earlier))) :
    goal.Admits candidates (chosen (exchange later previous candidate earlier)) := by
  have worth_eq : worth (chosen (exchange later previous candidate earlier)) =
      worth (chosen (later ++ (candidate, true) :: (previous, false) :: earlier)) := by
    simp [exchange, chosen_append, sameValue]
  refine ⟨completes.exchange.chosen_sublist, ?_, ?_⟩
  · exact worth_eq ▸ admits.target_le
  · exact worth_eq ▸ admits.le_limit

end Exchange

/-! ## Finding a selection -/

/-- Without a selection there is no waste to compare with. -/
def Best.Fresh (best : Best) : Prop :=
  best.decisions = none → best.waste = greatestSigned

section Finding

variable {goal : Goal} {candidates part : List Candidate} {best : Best} {place : Place}

/-- A recorded waste that fits is the waste of a selection. -/
theorem Best.Fresh.found (fresh : best.Fresh) {decisions : List Decision} {waste : Int}
    (fits : waste ≤ greatestSigned) : (best.record decisions waste).decisions ≠ none := by
  unfold Best.record
  split
  · exact Option.some_ne_none decisions
  · rename_i worse
    intro nothing
    exact worse (fresh nothing ▸ fits)

theorem Best.Fresh.record (fresh : best.Fresh) (decisions : List Decision) (waste : Int) :
    (best.record decisions waste).Fresh := by
  unfold Best.record
  split
  · exact fun nothing => absurd nothing (Option.some_ne_none decisions)
  · exact fresh

theorem Best.Fresh.visit (fresh : best.Fresh) : (goal.visit best place).1.Fresh := by
  unfold Goal.visit
  cases goal.verdict best.waste place with
  | below => exact fresh
  | dead => exact fresh
  | hit waste => exact fresh.record place.decided waste

theorem Best.record_decisions_ne_none (found : best.decisions ≠ none)
    (decisions : List Decision) (waste : Int) : (best.record decisions waste).decisions ≠ none := by
  unfold Best.record
  split
  · exact Option.some_ne_none decisions
  · exact found

theorem visit_decisions_ne_none (found : best.decisions ≠ none) :
    (goal.visit best place).1.decisions ≠ none := by
  unfold Goal.visit
  cases goal.verdict best.waste place with
  | below => exact found
  | dead => exact found
  | hit waste => exact Best.record_decisions_ne_none found place.decided waste

/-- No waste that a visit forms exceeds what it is compared with before there is
a selection. -/
structure Goal.WasteFits (goal : Goal) (best : Best) (place : Place) : Prop where
  fresh : best.Fresh
  here : totalWaste (chosen place.decided) ≤ greatestSigned
  hit : ∀ waste, goal.verdict best.waste place = .hit waste → waste ≤ greatestSigned

theorem visits_fresh (tries : Nat) :
    ∀ visited ∈ goal.visits tries {} place, visited.1.Fresh := by
  refine visits_keep (fun best _ => best.Fresh) ?_ fun _ => rfl
  intro visited _ fresh better next moved
  have freshBetter : (goal.visit visited.1 visited.2).1.Fresh := fresh.visit
  rwa [moved] at freshBetter

/-- Wastes fit where all sums over parts of the candidates do. -/
theorem wasteFits_of_sumsFit (fits : SumsFit candidates goal.target) (tries : Nat) :
    ∀ visited ∈ goal.visits tries {} (.start candidates), goal.WasteFits visited.1 visited.2 := by
  intro visited member
  have all : visited.2.candidates = candidates := visits_candidates tries visited member
  have sublist : (chosen visited.2.decided).Sublist candidates := all ▸ visited.2.chosen_sublist
  refine ⟨visits_fresh tries visited member, (fits.waste _ sublist).2, fun waste hit => ?_⟩
  obtain ⟨admits, rfl⟩ := admits_of_hit hit
  exact (fits.excess _ sublist admits.target_le).2

/-- Wastes fit in a search that reports. -/
theorem wasteFits_of_run {tries : Nat} {report : Report}
    (ran : goal.run tries {} (Place.start candidates).node = .ok report) :
    ∀ visited ∈ goal.visits tries {} (.start candidates), goal.WasteFits visited.1 visited.2 := by
  intro visited member
  have startFits : FitsSigned 0 := by decide
  exact ⟨visits_fresh tries visited member, (visits_waste_fit ran startFits visited member).2,
    fun waste hit => (visits_hit_fits ran visited member waste hit).2⟩

/-- A search learns that a selection was found if a part of the candidates is
in the window. -/
theorem learns_found (positive : Positive candidates) :
    goal.Learns candidates goal.WasteFits fun best whole =>
      goal.Admits candidates (chosen whole) → best.decisions ≠ none where
  keeps _ known admits := visit_decisions_ne_none (known admits)
  turns := by
    rintro best place whole rfl sound turns completes below admits
    rcases verdict_of_turn positive turns completes below admits with
      ⟨judged, _, less⟩ | ⟨judged, _⟩
    · rw [Goal.visit, judged]
      intro nothing
      have here := sound.here
      rw [sound.fresh nothing] at less
      omega
    · rw [Goal.visit, judged]
      exact sound.fresh.found (sound.hit _ judged)
  exchanges := by
    intro _ best later previous candidate earlier sameValue _ completes known admits
    exact known (admits_exchange sameValue completes admits)

/-- An exhausted search has found a selection if a part of the candidates is in
the window. -/
theorem explore_finds_of_wasteFits (positive : Positive candidates) {tries : Nat}
    (sound : ∀ visited ∈ goal.visits tries {} (.start candidates),
      goal.WasteFits visited.1 visited.2)
    (exhausted : (goal.explore tries {} (.start candidates)).exhausted = true)
    (admits : goal.Admits candidates part) :
    ∃ selected, (goal.explore tries {} (.start candidates)).best.selection? = some selected := by
  obtain ⟨whole, completes, rfl⟩ := exists_completes admits.sublist
  have found := (learns_found positive).explore_start sound exhausted completes admits
  obtain ⟨decisions, decisions_eq⟩ := Option.ne_none_iff_exists'.mp found
  exact ⟨chosen decisions, by rw [Best.selection?, decisions_eq]; rfl⟩

theorem explore_finds (fits : SumsFit candidates goal.target) {tries : Nat}
    (exhausted : (goal.explore tries {} (.start candidates)).exhausted = true)
    (admits : goal.Admits candidates part) :
    ∃ selected, (goal.explore tries {} (.start candidates)).best.selection? = some selected :=
  explore_finds_of_wasteFits fits.positive (wasteFits_of_sumsFit fits tries) exhausted admits

/-- A part of the candidates that is in the window above a target, put into the
order of the search. -/
theorem exists_admits {target costOfChange : Nat} (positive : Positive candidates)
    (fits : worth candidates ≤ greatestSigned) (subperm : part.Subperm candidates)
    (target_le : (target : Int) ≤ worth part) (le_limit : worth part ≤ target + costOfChange)
    (pruning : Pruning) (firstWaste : Int) :
    ∃ arranged : List Candidate, arranged.Perm part ∧
      (Goal.above pruning target costOfChange firstWaste).Admits (largestFirst candidates)
        arranged := by
  obtain ⟨arranged, perm, sublist⟩ := subperm.trans (largestFirst_perm candidates).symm.subperm
  rw [← worth_perm perm] at target_le le_limit
  have arrangedFits := (positive.worth_le (perm.subperm.trans subperm)).trans fits
  exact ⟨arranged, perm, sublist, target_le, Goal.le_above_limit _ _ arrangedFits le_limit⟩

end Finding

end CoinSelection.BranchAndBound
