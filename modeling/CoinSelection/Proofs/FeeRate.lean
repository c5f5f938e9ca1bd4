import CoinSelection.FeeRate
import CoinSelection.Proofs.Binary.Single

/-!
# From rates to fees

Fees are computed from a natural number of satoshi per thousand virtual bytes,
and rates keep their order there.  Up to sixteen thousand satoshi per virtual
byte that number is at most one satoshi away from the rate, and it is exact where
the rate is itself a natural number.
-/

namespace CoinSelection.FeeRate

open Binary Checked

theorem toSatPerKvb_eq (rate : FeeRate) :
    rate.toSatPerKvb = (rate.satPerVbyte.value.scale 1000).toNatSaturating greatestWord := by
  rw [toSatPerKvb, Single.value_scale]

/-- A rate that compares no greater than another comes to no greater number. -/
theorem toSatPerKvb_mono {rate other : FeeRate} {order : Ordering}
    (compared : rate.compare? other = some order) (isLE : order.isLE = true) :
    rate.toSatPerKvb ≤ other.toSatPerKvb := by
  rw [toSatPerKvb_eq, toSatPerKvb_eq]
  unfold compare? Single.compare? at compared
  split at compared
  · cases compared
    exact Value.toNatSaturating_scale_mono greatestWord 1000 (Single.representable_value _)
      (Single.representable_value _) ‹_› ‹_› (Std.isLE_compare.mp isLE)
  · cases compared

section Accuracy

variable {rate : FeeRate} {units : Nat}

theorem toSatPerKvb_eq_scaledUnits (value_eq : rate.satPerVbyte.value = .finite false units) :
    rate.toSatPerKvb = Value.scaledUnits greatestWord 1000 units := by
  rw [toSatPerKvb_eq, value_eq]
  rfl

/-- In units of the format, the number is at most one satoshi away from the rate
per thousand virtual bytes. -/
theorem toSatPerKvb_close (value_eq : rate.satPerVbyte.value = .finite false units)
    (small : units * 1000 < 2 ^ 24 * single.one) :
    rate.toSatPerKvb * single.one ≤ units * 1000 + single.one ∧
      units * 1000 ≤ rate.toSatPerKvb * single.one + single.one := by
  rw [toSatPerKvb_eq_scaledUnits value_eq]
  exact Value.scaledUnits_close small (by decide)

/-- A natural number of satoshi per virtual byte is exact. -/
theorem toSatPerKvb_ofNat {n : Nat} (small : n * 1000 < 2 ^ 24) :
    toSatPerKvb ⟨.ofNat n false⟩ = n * 1000 := by
  have value_eq : (⟨.ofNat n false⟩ : FeeRate).satPerVbyte.value = .finite false (n * single.one) :=
    Single.value_ofNat false (by omega)
  rw [toSatPerKvb_eq_scaledUnits value_eq]
  exact Value.scaledUnits_of_product (Nat.mul_right_comm _ _ _) small (by decide)

end Accuracy

end CoinSelection.FeeRate
