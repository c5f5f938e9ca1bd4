import CoinSelection.Binary.Format
import Mathlib.Algebra.Order.Ring.Nat
import Mathlib.Order.Monotone.Basic
import Mathlib.Tactic.SplitIfs

/-!
# Laws of rounding

Rounding to a format keeps the order, leaves alone what the format has, and is
off by at most half the distance of neighbouring magnitudes.  Between two powers
of two all magnitudes are equally far apart; a magnitude that is rounded up to
the next power of two belongs to the format as well.
-/

namespace CoinSelection.Binary

/-! ## Rounding a quotient -/

section Quotient

variable (tie : Tie) (numerator denominator : Nat)

theorem le_roundQuotient :
    numerator / denominator ≤ roundQuotient tie numerator denominator := by
  unfold roundQuotient
  dsimp only
  split_ifs <;> omega

theorem roundQuotient_le :
    roundQuotient tie numerator denominator ≤ numerator / denominator + 1 := by
  unfold roundQuotient
  dsimp only
  split_ifs <;> omega

/-- The integer is at most half the denominator away. -/
theorem roundQuotient_close {denominator : Nat} (positive : 0 < denominator) :
    2 * (roundQuotient tie numerator denominator * denominator) ≤ 2 * numerator + denominator ∧
      2 * numerator ≤
        2 * (roundQuotient tie numerator denominator * denominator) + denominator := by
  have remainder_lt := Nat.mod_lt numerator positive
  have division := Nat.div_add_mod' numerator denominator
  unfold roundQuotient
  dsimp only
  split_ifs <;> simp only [Nat.succ_mul] <;> omega

theorem roundQuotient_mono : Monotone fun numerator => roundQuotient tie numerator denominator := by
  intro first second le
  rcases (Nat.div_le_div_right le : first / denominator ≤ second / denominator).lt_or_eq with
    floor_lt | floor_eq
  · calc
      roundQuotient tie first denominator
          ≤ first / denominator + 1 := roundQuotient_le ..
      _ ≤ second / denominator := floor_lt
      _ ≤ roundQuotient tie second denominator := le_roundQuotient ..
  · have remainder_le : first % denominator ≤ second % denominator := by
      have firstDivision := Nat.div_add_mod' first denominator
      have secondDivision := Nat.div_add_mod' second denominator
      rw [floor_eq] at firstDivision
      omega
    unfold roundQuotient
    dsimp only
    rw [floor_eq]
    split_ifs <;> omega

theorem roundQuotient_mul {denominator : Nat} (positive : 0 < denominator) (quotient : Nat) :
    roundQuotient tie (quotient * denominator) denominator = quotient := by
  unfold roundQuotient
  dsimp only
  rw [Nat.mul_mod_left, Nat.mul_div_cancel _ positive, if_pos (by omega)]

end Quotient

namespace Format

/-! ## Magnitudes of a format -/

/-- The magnitudes with at most `bits` bits are those below a power of two. -/
theorem bitLength_le_iff {units bits : Nat} : bitLength units ≤ bits ↔ units < 2 ^ bits := by
  unfold bitLength
  split
  · subst units
    simp
  · rw [Nat.add_one_le_iff, Nat.log2_lt ‹_›]

/-- The bits of a magnitude that are beyond the precision. -/
def excessBits (format : Format) (units : Nat) : Nat :=
  bitLength units - format.precision

variable {format : Format}

theorem one_eq (format : Format) : format.one = 2 ^ format.fractionBits :=
  Nat.one_shiftLeft _

theorem one_pos (format : Format) : 0 < format.one := by
  rw [one_eq]
  exact Nat.two_pow_pos _

theorem spacing_eq (units : Nat) : format.spacing units = 2 ^ format.excessBits units :=
  Nat.one_shiftLeft _

theorem excessBits_le_iff {units bits : Nat} :
    format.excessBits units ≤ bits ↔ units < 2 ^ (format.precision + bits) := by
  rw [excessBits, Nat.sub_le_iff_le_add', bitLength_le_iff]

theorem excessBits_mono : Monotone format.excessBits := by
  intro first second le
  rw [excessBits_le_iff]
  exact le.trans_lt (excessBits_le_iff.mp le_rfl)

/-- The format has a magnitude if it is a multiple of the distance around it. -/
def Represents (format : Format) (units : Nat) : Prop :=
  format.spacing units ∣ units

/-- A significand may be as large as the power of two that no longer fits. -/
theorem represents_mul_two_pow (positive : 0 < format.precision) {significand : Nat}
    (le : significand ≤ 2 ^ format.precision) (exponent : Nat) :
    format.Represents (significand * 2 ^ exponent) := by
  rw [Represents, spacing_eq]
  rcases le.lt_or_eq with lt | rfl
  · have excess_le : format.excessBits (significand * 2 ^ exponent) ≤ exponent := by
      rw [excessBits_le_iff, pow_add]
      exact Nat.mul_lt_mul_of_pos_right lt (Nat.two_pow_pos exponent)
    exact (Nat.pow_dvd_pow 2 excess_le).mul_left significand
  · rw [← pow_add]
    have excess_le : format.excessBits (2 ^ (format.precision + exponent)) ≤ exponent + 1 := by
      rw [excessBits_le_iff, ← Nat.add_assoc]
      exact Nat.pow_lt_pow_right Nat.one_lt_two (Nat.lt_succ_self _)
    exact Nat.pow_dvd_pow 2 (by omega)

/-! ## Rounding to a format -/

/-- The significand that a quotient is rounded to. -/
def significand (format : Format) (numerator denominator : Nat) : Nat :=
  roundQuotient .toEven numerator
    (denominator * 2 ^ format.excessBits (numerator / denominator))

/-- The nearest magnitude, even if it is too large for the format. -/
def nearest (format : Format) (numerator denominator : Nat) : Nat :=
  format.significand numerator denominator * 2 ^ format.excessBits (numerator / denominator)

/-- Rounding succeeds if the nearest magnitude is below the bound of the format. -/
theorem round_cases (format : Format) (numerator denominator : Nat) :
    (format.nearest numerator denominator < 2 ^ format.rangeBits ∧
        format.round numerator denominator = some (format.nearest numerator denominator)) ∨
      (2 ^ format.rangeBits ≤ format.nearest numerator denominator ∧
        format.round numerator denominator = none) := by
  have round_eq : format.round numerator denominator =
      if format.nearest numerator denominator < 2 ^ format.rangeBits then
        some (format.nearest numerator denominator)
      else none := by
    rw [round, spacing_eq, Nat.one_shiftLeft]
    rfl
  rw [round_eq]
  split_ifs with below
  · exact .inl ⟨below, rfl⟩
  · exact .inr ⟨not_lt.mp below, rfl⟩

section Nearest

variable {numerator denominator : Nat}

/-- The bits beyond the precision are those that a division takes away. -/
theorem quotient_lt (numerator denominator : Nat) :
    numerator / (denominator * 2 ^ format.excessBits (numerator / denominator)) <
      2 ^ format.precision := by
  rw [← Nat.div_div_eq_div_mul, Nat.div_lt_iff_lt_mul (Nat.two_pow_pos _), ← pow_add,
    ← excessBits_le_iff]

/-- It takes no more bits away than that. -/
theorem le_quotient (positive : 0 < format.precision)
    (excess : 0 < format.excessBits (numerator / denominator)) :
    2 ^ (format.precision - 1) ≤
      numerator / (denominator * 2 ^ format.excessBits (numerator / denominator)) := by
  rw [← Nat.div_div_eq_div_mul, Nat.le_div_iff_mul_le (Nat.two_pow_pos _), ← pow_add, ← not_lt,
    ← bitLength_le_iff]
  unfold excessBits at *
  omega

theorem significand_le (numerator denominator : Nat) :
    format.significand numerator denominator ≤ 2 ^ format.precision :=
  (roundQuotient_le ..).trans (quotient_lt numerator denominator)

theorem le_significand (positive : 0 < format.precision)
    (excess : 0 < format.excessBits (numerator / denominator)) :
    2 ^ (format.precision - 1) ≤ format.significand numerator denominator :=
  (le_quotient positive excess).trans (le_roundQuotient ..)

/-- What is rounded belongs to the format. -/
theorem represents_nearest (positive : 0 < format.precision) (numerator denominator : Nat) :
    format.Represents (format.nearest numerator denominator) :=
  represents_mul_two_pow positive (significand_le numerator denominator) _

/-- Rounding leaves a magnitude of the format alone. -/
theorem nearest_of_represents {units : Nat} (represents : format.Represents units)
    (positive : 0 < denominator) : format.nearest (units * denominator) denominator = units := by
  rw [Represents, spacing_eq] at represents
  rcases represents with ⟨quotient, units_eq⟩
  have numerator_eq : units * denominator =
      quotient * (denominator * 2 ^ format.excessBits units) := by
    calc
      units * denominator = 2 ^ format.excessBits units * quotient * denominator := by
        rw [← units_eq]
      _ = quotient * (denominator * 2 ^ format.excessBits units) := by ac_rfl
  rw [nearest, significand, Nat.mul_div_cancel _ positive, numerator_eq,
    roundQuotient_mul _ (Nat.mul_pos positive (Nat.two_pow_pos _)), Nat.mul_comm, ← units_eq]

/-- Rounding keeps the order.  As long as the distance of magnitudes is the same,
significands are compared; where it grows, there is a power of two in between. -/
theorem nearest_mono (format : Format) (positive : 0 < format.precision) (denominator : Nat) :
    Monotone fun numerator => format.nearest numerator denominator := by
  intro first second le
  have excess_le : format.excessBits (first / denominator) ≤
      format.excessBits (second / denominator) := excessBits_mono (Nat.div_le_div_right le)
  rcases excess_le.lt_or_eq with excess_lt | excess_eq
  · calc
      format.nearest first denominator
          ≤ 2 ^ format.precision * 2 ^ format.excessBits (first / denominator) :=
            Nat.mul_le_mul_right _ (significand_le first denominator)
      _ ≤ 2 ^ (format.precision - 1) * 2 ^ format.excessBits (second / denominator) := by
          rw [← pow_add, ← pow_add]
          exact Nat.pow_le_pow_right Nat.two_pos (by omega)
      _ ≤ format.nearest second denominator :=
          Nat.mul_le_mul_right _ (le_significand positive (Nat.zero_lt_of_lt excess_lt))
  · dsimp only
    rw [nearest, nearest, significand, significand, excess_eq]
    exact Nat.mul_le_mul_right _ (roundQuotient_mono _ _ le)

/-- A quotient is rounded by at most half the distance of magnitudes around it. -/
theorem nearest_close (format : Format) (positive : 0 < denominator) (numerator : Nat) :
    2 * (format.nearest numerator denominator * denominator) ≤
        2 * numerator + denominator * format.spacing (numerator / denominator) ∧
      2 * numerator ≤ 2 * (format.nearest numerator denominator * denominator) +
        denominator * format.spacing (numerator / denominator) := by
  have product_eq : format.nearest numerator denominator * denominator =
      format.significand numerator denominator *
        (denominator * 2 ^ format.excessBits (numerator / denominator)) := by
    rw [nearest]
    ac_rfl
  rw [product_eq, spacing_eq]
  exact roundQuotient_close _ _ (Nat.mul_pos positive (Nat.two_pow_pos _))

/-- A natural number of units has the rounding error in units. -/
theorem nearest_mul_close (format : Format) (positive : 0 < denominator) (units : Nat) :
    2 * format.nearest (units * denominator) denominator ≤ 2 * units + format.spacing units ∧
      2 * units ≤ 2 * format.nearest (units * denominator) denominator + format.spacing units := by
  have close := format.nearest_close positive (units * denominator)
  rw [Nat.mul_div_cancel _ positive, Nat.mul_comm denominator, ← Nat.mul_assoc, ← Nat.mul_assoc,
    ← Nat.add_mul, ← Nat.add_mul] at close
  exact ⟨Nat.le_of_mul_le_mul_right close.1 positive, Nat.le_of_mul_le_mul_right close.2 positive⟩

end Nearest

end Format

end CoinSelection.Binary
