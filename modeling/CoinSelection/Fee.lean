import CoinSelection.FeeRate
import CoinSelection.Utxo

/-!
# Fees

Fees are whole satoshi.  A rate times a size is rounded down, as relaying nodes
do, but no part of a transaction is free unless the rate or the size is zero.
-/

namespace CoinSelection

/-- The least fee of a transaction that is relayed. -/
def minimumRelayFee : Nat := 1000

/-- The virtual size of a weight, rounded up. -/
def weightToVbytes (weight : Nat) : Outcome Nat := do
  let raised ← Checked.add weight 3
  pure (raised / 4)

/-- The fee of a transaction at a rate in satoshi per thousand virtual bytes.
Its virtual size counts where it is known, and its size otherwise. -/
def transactionFee (size : Nat) (virtualSize : Option Nat) (rate : Nat) : Outcome Nat := do
  let product ← Checked.mul (virtualSize.getD size) rate
  pure (max (product / 1000) minimumRelayFee)

/-- Computes fees at one rate, in satoshi per thousand virtual bytes. -/
structure FeeCalculator where
  baseRate : Nat := 0
  deriving DecidableEq, Repr

namespace FeeCalculator

/-- The calculator for a fee rate. -/
def ofRate (rate : FeeRate) : FeeCalculator :=
  ⟨rate.toSatPerKvb⟩

/-- The fee for a number of virtual bytes. -/
def fee (calculator : FeeCalculator) (size : Nat) : Outcome Nat := do
  let product ← Checked.mul calculator.baseRate size
  let floor := product / 1000
  if floor = 0 ∧ size ≠ 0 ∧ calculator.baseRate ≠ 0 then pure 1 else pure floor

/-- The fee for spending an output. -/
def inputFee (calculator : FeeCalculator) (utxo : Utxo) : Outcome Nat := do
  let weight ← utxo.inputWeight
  let size ← weightToVbytes weight
  calculator.fee size

theorem fee_eq_ok_iff {calculator : FeeCalculator} {size value : Nat} :
    calculator.fee size = .ok value ↔
      calculator.baseRate * size < Checked.wordBound ∧
        value =
          if calculator.baseRate * size / 1000 = 0 ∧ size ≠ 0 ∧ calculator.baseRate ≠ 0 then 1
          else calculator.baseRate * size / 1000 := by
  unfold fee
  cases product : Checked.mul calculator.baseRate size with
  | error failure =>
      have tooLarge : ¬ calculator.baseRate * size < Checked.wordBound := fun fits => by
        have fitting := Checked.mul_eq_ok_iff.mpr ⟨fits, rfl⟩
        rw [product] at fitting
        cases fitting
      simp [bind, Except.bind, tooLarge]
  | ok result =>
      obtain ⟨fits, rfl⟩ := Checked.mul_eq_ok_iff.mp product
      simp only [bind, Except.bind, pure, Except.pure, fits, true_and]
      split <;> simp [eq_comm]

end FeeCalculator

end CoinSelection
