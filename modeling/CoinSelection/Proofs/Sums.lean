import CoinSelection.Proofs.Outcome
import CoinSelection.Checked
import Mathlib.Algebra.Order.BigOperators.Group.List
import Mathlib.Tactic.Linarith

/-!
# Sums of words

A checked sum from the left never exceeds its last partial sum, so it succeeds
exactly when the whole sum fits, and overflows otherwise.  A saturating sum is the whole sum or the
greatest word.  Neither depends on the order of the summands.
-/

namespace CoinSelection.Checked

open Outcome

/-! ## Fitting -/

theorem fitsSigned_iff {n : Int} :
    FitsSigned n ↔ -9223372036854775808 ≤ n ∧ n ≤ 9223372036854775807 :=
  Iff.rfl

theorem fitsSigned_of_nonneg {n : Int} (nonneg : 0 ≤ n) (fits : n ≤ greatestSigned) :
    FitsSigned n :=
  ⟨le_trans (by decide) nonneg, fits⟩

theorem addSigned_of_fits {first second : Int} (fits : FitsSigned (first + second)) :
    addSigned first second = .ok (first + second) :=
  addSigned_eq_ok_iff.mpr ⟨fits, rfl⟩

theorem subSigned_of_fits {first second : Int} (fits : FitsSigned (first - second)) :
    subSigned first second = .ok (first - second) :=
  subSigned_eq_ok_iff.mpr ⟨fits, rfl⟩

theorem addSigned_yields (first second : Int) : (addSigned first second).Yields (first + second) :=
  fun _ finished => (addSigned_eq_ok_iff.mp finished).2

theorem subSigned_yields (first second : Int) : (subSigned first second).Yields (first - second) :=
  fun _ finished => (subSigned_eq_ok_iff.mp finished).2

@[simp]
theorem not_refuses_below {bound : Nat} {operation : Operation} {result : Nat} :
    ¬ Refuses (below bound operation result) := by
  unfold below abort
  split <;> simp

@[simp]
theorem not_refuses_signed {operation : Operation} {result : Int} :
    ¬ Refuses (signed operation result) := by
  unfold signed abort
  split <;> simp

/-! ## Checked sums -/

/-- A result that reaches its bound is an overflow. -/
theorem below_of_le {bound : Nat} {operation : Operation} {result : Nat}
    (tooLarge : bound ≤ result) : below bound operation result = abort (.overflow operation) :=
  if_neg tooLarge.not_gt

/-- The partial sums of words only grow, so a checked sum fails at one of them
exactly when the whole sum is no word, and then it fails with an overflow. -/
theorem sum_eq_below (words : List Nat) : sum words = below wordBound .add words.sum := by
  suffices general : ∀ start < wordBound,
      words.foldlM add start = below wordBound .add (start + words.sum) by
    simpa [sum] using general 0 (by decide)
  induction words with
  | nil =>
      intro start fits
      exact (below_eq_ok_iff.mpr ⟨fits, rfl⟩).symm
  | cons word rest ih =>
      intro start fits
      rw [List.foldlM_cons, List.sum_cons, ← Nat.add_assoc]
      rcases Nat.lt_or_ge (start + word) wordBound with partialFits | tooLarge
      · rw [add_eq_ok_iff.mpr ⟨partialFits, rfl⟩]
        exact ih (start + word) partialFits
      · rw [add, below_of_le tooLarge, below_of_le (tooLarge.trans (Nat.le_add_right _ _))]
        rfl

private theorem foldlM_addSigned_eq_ok {words : List Int} {start : Int}
    (startNonneg : 0 ≤ start) (nonneg : ∀ word ∈ words, 0 ≤ word)
    (fits : start + words.sum ≤ greatestSigned) :
    words.foldlM addSigned start = .ok (start + words.sum) := by
  induction words generalizing start with
  | nil => simp [pure, Except.pure]
  | cons word rest ih =>
      have wordNonneg : 0 ≤ word := nonneg word List.mem_cons_self
      have restNonneg : ∀ other ∈ rest, 0 ≤ other := fun other member =>
        nonneg other (List.mem_cons_of_mem word member)
      have sumNonneg : 0 ≤ rest.sum := List.sum_nonneg restNonneg
      rw [List.sum_cons, ← add_assoc] at fits ⊢
      have partialFits : FitsSigned (start + word) :=
        fitsSigned_of_nonneg (by linarith) (by linarith)
      rw [List.foldlM_cons, addSigned_of_fits partialFits]
      exact ih (by linarith) restNonneg fits

/-- A checked sum of signed words that are not negative is the whole sum where
that fits. -/
theorem sumSigned_of_nonneg {words : List Int} (nonneg : ∀ word ∈ words, 0 ≤ word)
    (fits : words.sum ≤ greatestSigned) : sumSigned words = .ok words.sum := by
  simpa [sumSigned] using foldlM_addSigned_eq_ok le_rfl nonneg (by simpa using fits)

private theorem foldlM_addSigned_eq_sum {words : List Int} {start total : Int}
    (startFits : FitsSigned start) (finished : words.foldlM addSigned start = .ok total) :
    FitsSigned total ∧ total = start + words.sum := by
  induction words generalizing start with
  | nil =>
      obtain rfl : start = total := Except.ok.inj finished
      exact ⟨startFits, by simp⟩
  | cons word rest ih =>
      rw [List.foldlM_cons, bind_eq_ok_iff] at finished
      obtain ⟨partialSum, added, finished⟩ := finished
      obtain ⟨partialFits, rfl⟩ := addSigned_eq_ok_iff.mp added
      rw [List.sum_cons, ← add_assoc]
      exact ih partialFits finished

/-- A checked sum of signed words is the whole sum, and that fits. -/
theorem sumSigned_eq_sum {words : List Int} {total : Int} (finished : sumSigned words = .ok total) :
    FitsSigned total ∧ total = words.sum := by
  simpa using foldlM_addSigned_eq_sum (by decide) finished

theorem not_refuses_sumSigned (words : List Int) : ¬ Refuses (sumSigned words) := by
  suffices general : ∀ start, ¬ Refuses (words.foldlM addSigned start) from general 0
  induction words with
  | nil => simp [pure, Except.pure]
  | cons word rest ih =>
      intro start
      simp only [List.foldlM_cons, refuses_bind_iff, addSigned, not_refuses_signed, false_or,
        not_exists, not_and]
      exact fun partialSum _ => ih partialSum

/-! ## Saturation -/

/-- A saturating sum is the whole sum or the greatest word. -/
theorem saturatingSum_eq_min (words : List Nat) :
    saturatingSum words = min words.sum greatestWord := by
  suffices general : ∀ start, start ≤ greatestWord →
      words.foldl saturatingAdd start = min (start + words.sum) greatestWord by
    simpa [saturatingSum] using general 0 (Nat.zero_le _)
  induction words with
  | nil =>
      intro start fits
      simp [fits]
  | cons word rest ih =>
      intro start fits
      rw [List.foldl_cons, ih (saturatingAdd start word) (min_le_right _ _), saturatingAdd,
        List.sum_cons]
      omega

/-- A saturating sum that fits is the whole sum. -/
theorem saturatingSum_of_le {words : List Nat} (fits : words.sum ≤ greatestWord) :
    saturatingSum words = words.sum := by
  rw [saturatingSum_eq_min, min_eq_left fits]

theorem toSigned?_eq_some_iff {word : Nat} {value : Int} :
    toSigned? word = some value ↔ (word : Int) ≤ greatestSigned ∧ value = word := by
  unfold toSigned?
  split <;> simp_all [eq_comm]

theorem toSigned?_eq_none_iff {word : Nat} :
    toSigned? word = none ↔ greatestSigned < word := by
  unfold toSigned?
  split <;> simp_all

theorem clampSigned_nonneg (word : Nat) : 0 ≤ clampSigned word :=
  le_min (Int.natCast_nonneg word) (by decide)

/-- Two signed words that are not negative saturate upward only. -/
theorem saturatingAddSigned_of_nonneg {first second : Int} (firstNonneg : 0 ≤ first)
    (secondNonneg : 0 ≤ second) :
    saturatingAddSigned first second = min (first + second) greatestSigned := by
  refine max_eq_right (le_min ?_ (by decide))
  exact le_trans (by decide) (add_nonneg firstNonneg secondNonneg)

/-- Two words add up to what they are worth, as far as a signed word goes. -/
theorem saturatingAddSigned_clampSigned (first second : Nat) :
    saturatingAddSigned first (clampSigned second) =
      min ((first : Int) + second) greatestSigned := by
  rw [saturatingAddSigned_of_nonneg (Int.natCast_nonneg first) (clampSigned_nonneg second),
    clampSigned]
  omega

/-- A word that fits a signed one is read back unchanged from its bits. -/
theorem reinterpret_of_le {word : Nat} (fits : (word : Int) ≤ greatestSigned) :
    reinterpret word = word := by
  apply Int.bmod_eq_of_le_mul_two <;> simp only [wordBound, greatestSigned] at * <;> omega

end CoinSelection.Checked
