import CoinSelection.Proofs.Sums
import CoinSelection.Select
import Mathlib.Data.List.Perm.Subperm

/-!
# Exact prices

Without a bound on words every output has a size, a number of confirmations and
a fee.  The checked computations succeed exactly when the words that they form
fit, and they give these exact values; they never refuse anything.
-/

namespace CoinSelection

open Checked Outcome

/-! ## Sizes and fees -/

namespace Utxo

/-- The size of the input that spends an output, in virtual bytes. -/
def virtualSize (utxo : Utxo) : Nat :=
  (inputBaseWeight + utxo.satisfactionWeight.toNat + 3) / 4

/-- The weight of the input that spends an output can be computed and rounded
up. -/
def WeightFits (utxo : Utxo) : Prop :=
  inputBaseWeight + utxo.satisfactionWeight.toNat + 3 < wordBound

/-- The number of blocks from the one that confirmed an output up to the tip. -/
def exactConfirmations (utxo : Utxo) (tipHeight : Nat) : Nat :=
  match utxo.confirmationHeight with
  | some height => if height.toNat ≤ tipHeight then tipHeight - height.toNat + 1 else 0
  | none => 0

theorem confirmations_eq_ok_iff {utxo : Utxo} {tipHeight count : Nat} :
    utxo.confirmations tipHeight = .ok count ↔
      utxo.exactConfirmations tipHeight < heightBound ∧
        count = utxo.exactConfirmations tipHeight := by
  have zeroFits : 0 < heightBound := by decide
  unfold confirmations exactConfirmations
  cases utxo.confirmationHeight with
  | none => simp [zeroFits, eq_comm]
  | some height =>
      by_cases confirmed : height.toNat ≤ tipHeight
      · simp [confirmed, below_eq_ok_iff]
      · simp [confirmed, zeroFits, eq_comm]

/-- A later tip confirms an output at least as often. -/
theorem exactConfirmations_mono (utxo : Utxo) {tipHeight later : Nat} (le : tipHeight ≤ later) :
    utxo.exactConfirmations tipHeight ≤ utxo.exactConfirmations later := by
  unfold exactConfirmations
  cases utxo.confirmationHeight with
  | none => exact le_rfl
  | some height =>
      dsimp only
      by_cases confirmed : height.toNat ≤ tipHeight
      · rw [if_pos confirmed, if_pos (confirmed.trans le)]
        omega
      · rw [if_neg confirmed]
        exact Nat.zero_le _

theorem not_refuses_confirmations (utxo : Utxo) (tipHeight : Nat) :
    ¬ Refuses (utxo.confirmations tipHeight) := by
  unfold confirmations
  split
  · split <;> simp
  · simp

end Utxo

namespace FeeCalculator

/-- The fee for a number of virtual bytes: the rate times the size, rounded
down, but one satoshi where that is nothing and neither factor is zero. -/
def exactFee (calculator : FeeCalculator) (size : Nat) : Nat :=
  if calculator.baseRate * size / 1000 = 0 ∧ size ≠ 0 ∧ calculator.baseRate ≠ 0 then 1
  else calculator.baseRate * size / 1000

/-- The fee for spending an output. -/
def exactInputFee (calculator : FeeCalculator) (utxo : Utxo) : Nat :=
  calculator.exactFee utxo.virtualSize

/-- The words that are formed for the fee of an input fit. -/
structure Prices (calculator : FeeCalculator) (utxo : Utxo) : Prop where
  weight : utxo.WeightFits
  product : calculator.baseRate * utxo.virtualSize < wordBound

theorem fee_eq_ok_iff_exactFee {calculator : FeeCalculator} {size value : Nat} :
    calculator.fee size = .ok value ↔
      calculator.baseRate * size < wordBound ∧ value = calculator.exactFee size :=
  fee_eq_ok_iff

theorem not_refuses_fee (calculator : FeeCalculator) (size : Nat) :
    ¬ Refuses (calculator.fee size) := by
  simp only [fee, mul, refuses_bind_iff, not_refuses_below, false_or, not_exists, not_and]
  intro product _
  split <;> simp [pure, Except.pure]

/-- A fee falls with the rate and with the size, in spite of rounding and of the
one satoshi that it costs at least. -/
theorem exactFee_mono {cheaper dearer : FeeCalculator} {small large : Nat}
    (rate_le : cheaper.baseRate ≤ dearer.baseRate) (size_le : small ≤ large) :
    cheaper.exactFee small ≤ dearer.exactFee large := by
  have product_le : cheaper.baseRate * small ≤ dearer.baseRate * large :=
    Nat.mul_le_mul rate_le size_le
  have floor_le : cheaper.baseRate * small / 1000 ≤ dearer.baseRate * large / 1000 :=
    Nat.div_le_div_right product_le
  unfold exactFee
  by_cases raised : cheaper.baseRate * small / 1000 = 0 ∧ small ≠ 0 ∧ cheaper.baseRate ≠ 0
  · rw [if_pos raised]
    by_cases floored : dearer.baseRate * large / 1000 = 0
    · rw [if_pos ⟨floored, by omega, by omega⟩]
    · rw [if_neg fun nothing => floored nothing.1]
      omega
  · rw [if_neg raised]
    split <;> omega

theorem inputFee_eq_ok_iff {calculator : FeeCalculator} {utxo : Utxo} {value : Nat} :
    calculator.inputFee utxo = .ok value ↔
      calculator.Prices utxo ∧ value = calculator.exactInputFee utxo := by
  simp only [inputFee, Utxo.inputWeight, weightToVbytes, bind_eq_ok_iff, add_eq_ok_iff,
    fee_eq_ok_iff_exactFee, pure, Except.pure, Except.ok.injEq]
  constructor
  · rintro ⟨weight, ⟨_, rfl⟩, size, ⟨raised, ⟨fits, rfl⟩, rfl⟩, product, rfl⟩
    exact ⟨⟨fits, product⟩, rfl⟩
  · rintro ⟨⟨fits, product⟩, rfl⟩
    unfold Utxo.WeightFits at fits
    exact ⟨_, ⟨by omega, rfl⟩, _, ⟨_, ⟨fits, rfl⟩, rfl⟩, product, rfl⟩

theorem not_refuses_inputFee (calculator : FeeCalculator) (utxo : Utxo) :
    ¬ Refuses (calculator.inputFee utxo) := by
  simp [inputFee, Utxo.inputWeight, weightToVbytes, add, refuses_bind_iff, not_refuses_fee,
    pure, Except.pure]

end FeeCalculator

/-! ## Filters -/

namespace Filter

/-- The number of confirmations that a filter asks for is a height. -/
def CountFits (filter : Filter) (utxo : Utxo) : Prop :=
  filter.acceptsAsset utxo = true → filter.minConfirmations ≠ 0 →
    ∀ tipHeight, filter.tipHeight = some tipHeight →
      utxo.exactConfirmations tipHeight.toNat < heightBound

/-- Whether an output may be spent. -/
def admits (filter : Filter) (utxo : Utxo) : Bool :=
  filter.acceptsAsset utxo &&
    (filter.minConfirmations = 0 ||
      match filter.tipHeight with
      | some tipHeight =>
          filter.minConfirmations.toNat ≤ utxo.exactConfirmations tipHeight.toNat
      | none => utxo.confirmationHeight.isSome)

theorem accepts_eq_ok_iff {filter : Filter} {utxo : Utxo} {answer : Bool} :
    filter.accepts utxo = .ok answer ↔
      filter.CountFits utxo ∧ answer = filter.admits utxo := by
  unfold accepts acceptsConfirmations CountFits admits
  by_cases asset : filter.acceptsAsset utxo = true
  · by_cases unconfirmed : filter.minConfirmations = 0
    · simp [asset, unconfirmed, eq_comm]
    · cases tip : filter.tipHeight with
      | none => simp [asset, unconfirmed, eq_comm]
      | some tipHeight =>
          simp only [asset, unconfirmed, if_true, if_false, bind_eq_ok_iff,
            Utxo.confirmations_eq_ok_iff, pure, Except.pure, Except.ok.injEq, Bool.true_and,
            decide_false, Bool.false_or]
          constructor
          · rintro ⟨count, ⟨fits, rfl⟩, rfl⟩
            exact ⟨fun _ _ _ found => Option.some.inj found ▸ fits, rfl⟩
          · rintro ⟨fits, rfl⟩
            exact ⟨_, ⟨fits trivial unconfirmed tipHeight rfl, rfl⟩, rfl⟩
  · simp [asset, eq_comm]

theorem not_refuses_accepts (filter : Filter) (utxo : Utxo) :
    ¬ Refuses (filter.accepts utxo) := by
  unfold accepts acceptsConfirmations
  split
  · split
    · simp
    · split
      · simp [refuses_bind_iff, Utxo.not_refuses_confirmations, pure, Except.pure]
      · simp
  · simp

/-- A filter accepts the outputs that it admits, in their order, if it can
count the confirmations of all. -/
theorem accepted_eq_ok_iff {filter : Filter} {pool accepted : List Utxo} :
    filter.accepted pool = .ok accepted ↔
      (∀ utxo ∈ pool, filter.CountFits utxo) ∧ accepted = pool.filter filter.admits := by
  induction pool generalizing accepted with
  | nil => simp [Filter.accepted, eq_comm]
  | cons utxo rest ih =>
      simp only [Filter.accepted, bind_eq_ok_iff, accepts_eq_ok_iff, ih, pure, Except.pure,
        Except.ok.injEq, List.forall_mem_cons, List.filter_cons]
      constructor
      · rintro ⟨answer, ⟨fits, rfl⟩, others, ⟨restFits, rfl⟩, rfl⟩
        exact ⟨⟨fits, restFits⟩, rfl⟩
      · rintro ⟨⟨fits, restFits⟩, rfl⟩
        exact ⟨_, ⟨fits, rfl⟩, _, ⟨restFits, rfl⟩, rfl⟩

theorem not_refuses_accepted (filter : Filter) (pool : List Utxo) :
    ¬ Refuses (filter.accepted pool) := by
  induction pool with
  | nil => simp [Filter.accepted]
  | cons utxo rest ih =>
      simp [Filter.accepted, refuses_bind_iff, not_refuses_accepts, ih, pure, Except.pure]

end Filter

end CoinSelection
