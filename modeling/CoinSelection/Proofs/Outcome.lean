import CoinSelection.RandomSource

/-!
# Laws of outcomes and of drawing

A computation in steps succeeds exactly when every step does, and it aborts at
the first step that aborts.  A computation that draws words passes the number of
words drawn from step to step; these laws open it one step at a time.
-/

namespace CoinSelection

/-! ## Outcomes -/

namespace Outcome

variable {α β : Type}

/-- An outcome that is a broken assumption. -/
def Aborts (outcome : Outcome α) : Prop :=
  ∃ cause, outcome = .error (.abort cause)

/-- An outcome that is a refusal. -/
def Refuses (outcome : Outcome α) : Prop :=
  ∃ error, outcome = .error (.error error)

@[simp]
theorem not_aborts_ok (value : α) : ¬ Aborts (.ok value) := by
  simp [Aborts]

@[simp]
theorem not_aborts_error (error : Error) : ¬ Aborts (α := α) (.error (.error error)) := by
  simp [Aborts]

@[simp]
theorem aborts_abort (cause : Abort) : Aborts (α := α) (.error (.abort cause)) :=
  ⟨cause, rfl⟩

/-- A failure aborts whatever the result would have been. -/
theorem aborts_error_iff {failure : Failure} :
    Aborts (α := α) (.error failure) ↔ ∃ cause, failure = .abort cause := by
  simp [Aborts]

@[simp]
theorem not_refuses_ok (value : α) : ¬ Refuses (.ok value) := by
  simp [Refuses]

@[simp]
theorem not_refuses_abort (cause : Abort) : ¬ Refuses (α := α) (.error (.abort cause)) := by
  simp [Refuses]

@[simp]
theorem ok_bind (value : α) (next : α → Outcome β) : (.ok value >>= next) = next value :=
  rfl

/-- Steps succeed together when each of them does. -/
theorem bind_eq_ok_iff {outcome : Outcome α} {next : α → Outcome β} {result : β} :
    (outcome >>= next) = .ok result ↔
      ∃ value, outcome = .ok value ∧ next value = .ok result := by
  cases outcome <;> simp [bind, Except.bind]

/-- Steps fail together when one of them does and those before it succeed. -/
theorem bind_eq_error_iff {outcome : Outcome α} {next : α → Outcome β} {failure : Failure} :
    (outcome >>= next) = .error failure ↔
      outcome = .error failure ∨ ∃ value, outcome = .ok value ∧ next value = .error failure := by
  cases outcome <;> simp [bind, Except.bind]

theorem map_eq_ok_iff {outcome : Outcome α} {convert : α → β} {result : β} :
    outcome.map convert = .ok result ↔ ∃ value, outcome = .ok value ∧ convert value = result := by
  cases outcome <;> simp [Except.map]

/-- Steps refuse together when one of them does and those before it succeed. -/
theorem refuses_bind_iff {outcome : Outcome α} {next : α → Outcome β} :
    Refuses (outcome >>= next) ↔
      Refuses outcome ∨ ∃ value, outcome = .ok value ∧ Refuses (next value) := by
  cases outcome <;> simp [Refuses, bind, Except.bind]

/-- Steps abort together when one of them does and those before it succeed. -/
theorem aborts_bind_iff {outcome : Outcome α} {next : α → Outcome β} :
    Aborts (outcome >>= next) ↔
      outcome.Aborts ∨ ∃ value, outcome = .ok value ∧ Aborts (next value) := by
  cases outcome <;> simp [Aborts, bind, Except.bind]

/-- What does not abort is a value or a refusal. -/
theorem not_aborts_iff {outcome : Outcome α} :
    ¬ outcome.Aborts ↔ (∃ value, outcome = .ok value) ∨ ∃ error, outcome = refuse error := by
  match outcome with
  | .ok value => simp
  | .error (.error error) => simp [refuse]
  | .error (.abort cause) => simp [refuse]

/-- What neither aborts nor refuses succeeds. -/
theorem exists_ok {outcome : Outcome α} (accepted : ¬ outcome.Refuses)
    (finished : ¬ outcome.Aborts) : ∃ value, outcome = .ok value := by
  match outcome with
  | .ok value => exact ⟨value, rfl⟩
  | .error (.error error) => exact (accepted ⟨error, rfl⟩).elim
  | .error (.abort cause) => exact (finished ⟨cause, rfl⟩).elim

@[simp]
theorem aborts_map_iff {outcome : Outcome α} {convert : α → β} :
    Aborts (outcome.map convert) ↔ outcome.Aborts := by
  cases outcome <;> simp [Aborts, Except.map]

/-- Converting the result of two steps converts that of the second. -/
theorem exceptMap_bind {γ : Type} (outcome : Outcome α) (next : α → Outcome β) (convert : β → γ) :
    Except.map convert (outcome >>= next) =
      outcome >>= fun value => Except.map convert (next value) := by
  cases outcome <;> rfl

/-- A step after a conversion is a step of its own. -/
theorem bind_exceptMap {γ : Type} (outcome : Outcome α) (convert : α → β) (next : β → Outcome γ) :
    Except.map convert outcome >>= next = outcome >>= fun value => next (convert value) := by
  cases outcome <;> rfl

/-- A first step that cannot refuse succeeds if the steps together do not
abort, and leaves the outcome to the next one. -/
theorem bind_eq_next {outcome : Outcome α} {next : α → Outcome β} (accepted : ¬ outcome.Refuses)
    (finished : ¬ Aborts (outcome >>= next)) :
    ∃ value, outcome = .ok value ∧ (outcome >>= next) = next value := by
  obtain ⟨value, rfl⟩ := exists_ok accepted fun aborts =>
    finished (aborts_bind_iff.mpr (.inl aborts))
  exact ⟨value, rfl, rfl⟩

/-- An outcome that is this value if it is a value at all. -/
def Yields (outcome : Outcome α) (value : α) : Prop :=
  ∀ result, outcome = .ok result → result = value

theorem yields_pure (value : α) : Yields (pure value) value := by
  simp [Yields, pure, Except.pure]

theorem Yields.bind {outcome : Outcome α} {value : α} {next : α → Outcome β} {last : β}
    (first : outcome.Yields value) (second : (next value).Yields last) :
    Yields (outcome >>= next) last := by
  intro result finished
  obtain ⟨middle, outcome_eq, next_eq⟩ := bind_eq_ok_iff.mp finished
  exact second result (first middle outcome_eq ▸ next_eq)

/-- It is this value if there is one. -/
theorem Yields.eq_ok {outcome : Outcome α} {value : α} (yields : outcome.Yields value)
    (finishes : ∃ result, outcome = .ok result) : outcome = .ok value := by
  obtain ⟨result, finished⟩ := finishes
  rw [finished, yields result finished]

end Outcome

/-! ## Drawing -/

namespace Draw

variable {α β : Type}

@[simp]
theorem run_pure (value : α) (drawn : Nat) :
    (pure value : Draw α).run drawn = (.ok value, drawn) :=
  rfl

/-- The second step continues where the first one stopped drawing. -/
theorem run_bind (computation : Draw α) (next : α → Draw β) (drawn : Nat) :
    (computation >>= next).run drawn =
      match computation.run drawn with
      | (.ok value, later) => (next value).run later
      | (.error failure, later) => (.error failure, later) := by
  simp only [run, ExceptT.run_bind, StateT.run_bind]
  cases (ExceptT.run computation).run drawn with
  | mk outcome later => cases outcome <;> rfl

theorem run_bind_of_ok {computation : Draw α} {value : α} {drawn later : Nat}
    (finished : computation.run drawn = (.ok value, later)) (next : α → Draw β) :
    (computation >>= next).run drawn = (next value).run later := by
  rw [run_bind, finished]

theorem run_bind_of_error {computation : Draw α} {failure : Failure} {drawn later : Nat}
    (failed : computation.run drawn = (.error failure, later)) (next : α → Draw β) :
    (computation >>= next).run drawn = (.error failure, later) := by
  rw [run_bind, failed]

/-- Steps succeed together when the second one succeeds from where the first one
stopped drawing. -/
theorem run_bind_eq_ok_iff {computation : Draw α} {next : α → Draw β} {drawn later : Nat}
    {result : β} :
    (computation >>= next).run drawn = (.ok result, later) ↔
      ∃ value middle, computation.run drawn = (.ok value, middle) ∧
        (next value).run middle = (.ok result, later) := by
  constructor
  · intro finished
    rw [run_bind] at finished
    split at finished
    · exact ⟨_, _, ‹_›, finished⟩
    · cases finished
  · rintro ⟨value, middle, first, second⟩
    rw [run_bind_of_ok first, second]

/-- A step after a converted outcome is a step of its own. -/
theorem ofOutcome_map_bind {γ : Type} (outcome : Outcome α) (convert : α → β)
    (next : β → Draw γ) :
    ofOutcome (outcome.map convert) >>= next =
      ofOutcome outcome >>= fun value => next (convert value) := by
  cases outcome <;> rfl

/-- A last step that draws nothing only changes the result. -/
theorem run_bind_pure (computation : Draw α) (convert : α → β) (drawn : Nat) :
    (computation >>= fun value => pure (convert value)).run drawn =
      ((computation.run drawn).1.map convert, (computation.run drawn).2) := by
  rw [run_bind]
  cases computation.run drawn with
  | mk outcome later => cases outcome <;> rfl

theorem run_map (convert : α → β) (computation : Draw α) (drawn : Nat) :
    (convert <$> computation).run drawn =
      ((computation.run drawn).1.map convert, (computation.run drawn).2) := by
  rw [map_eq_pure_bind, run_bind_pure]

/-- Computations that agree up to a conversion succeed or fail alike. -/
theorem run_cases_of_map_eq {convert : α → β} {one other : Draw α}
    (same : convert <$> one = convert <$> other) (drawn : Nat) :
    (∃ value another later, one.run drawn = (.ok value, later) ∧
        other.run drawn = (.ok another, later) ∧ convert value = convert another) ∨
      ∃ failure later, one.run drawn = (.error failure, later) ∧
        other.run drawn = (.error failure, later) := by
  have runs := congrArg (fun computation => computation.run drawn) same
  simp only [run_map, Prod.mk.injEq] at runs
  obtain ⟨outcome_eq, later_eq⟩ := runs
  cases oneRun : one.run drawn with
  | mk oneOutcome later =>
      cases otherRun : other.run drawn with
      | mk otherOutcome last =>
          rw [oneRun, otherRun] at outcome_eq later_eq
          obtain rfl : later = last := later_eq
          match oneOutcome, otherOutcome with
          | .ok value, .ok another =>
              exact .inl ⟨value, another, later, rfl, rfl, Except.ok.inj outcome_eq⟩
          | .error failure, .error another =>
              obtain rfl : failure = another := Except.error.inj outcome_eq
              exact .inr ⟨failure, later, rfl, rfl⟩

@[simp]
theorem run_ofOutcome_ok_bind (value : α) (next : α → Draw β) (drawn : Nat) :
    (ofOutcome (.ok value) >>= next).run drawn = (next value).run drawn :=
  rfl

@[simp]
theorem run_ofOutcome_error_bind (failure : Failure) (next : α → Draw β) (drawn : Nat) :
    (ofOutcome (.error failure) >>= next).run drawn = (.error failure, drawn) :=
  rfl

@[simp]
theorem run_toss_bind (source : RandomSource) (next : Bool → Draw β) (drawn : Nat) :
    (toss source >>= next).run drawn =
      (next (decide (source drawn < 0x8000000000000000))).run (drawn + 1) := by
  rw [run_bind, run_toss]

end Draw

end CoinSelection
