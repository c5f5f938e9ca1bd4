import CoinSelection.Binary.Single
import CoinSelection.Proofs.Binary.Rounding

/-!
# Laws of the thirty-two bit format

A value of the format is read back from its bits.  Scaling rounds twice, first
to the format and then to a natural number; neither step changes the order, and
neither loses anything where the product is a natural number that the format has.
-/

namespace CoinSelection.Binary

open Format

/-- The numbers with a significand before the binary point are in range. -/
theorem two_pow_mul_one_lt : 2 ^ 24 * single.one < 2 ^ single.rangeBits := by
  rw [one_eq, ← pow_add]
  exact Nat.pow_lt_pow_right Nat.one_lt_two (by decide)

theorem represents_mul_one {n : Nat} (small : n ≤ 2 ^ 24) :
    single.Represents (n * single.one) := by
  rw [one_eq]
  exact represents_mul_two_pow (by decide) small single.fractionBits

/-! ## Bits and values -/

/-- A value that the thirty-two bit format has. -/
def Value.Representable : Value → Prop
  | .finite _ units => single.Represents units ∧ units < 2 ^ single.rangeBits
  | _ => True

theorem Value.representable_of_significand (negative : Bool) {significand exponent : Nat}
    (significand_lt : significand < 2 ^ 24) (exponent_lt : exponent < 254) :
    (Value.finite negative (significand * 2 ^ exponent)).Representable := by
  have bits_le : 24 + exponent ≤ single.rangeBits :=
    Nat.add_le_add_left (Nat.le_of_lt_succ exponent_lt) 24
  constructor
  · exact represents_mul_two_pow (by decide) significand_lt.le exponent
  · calc
      significand * 2 ^ exponent
          < 2 ^ 24 * 2 ^ exponent := Nat.mul_lt_mul_of_pos_right significand_lt (Nat.two_pow_pos _)
      _ = 2 ^ (24 + exponent) := (pow_add 2 24 exponent).symm
      _ ≤ 2 ^ single.rangeBits := Nat.pow_le_pow_right Nat.two_pos bits_le

theorem Value.representable_round (negative : Bool) (numerator denominator : Nat) :
    (Value.ofMagnitude negative (single.round numerator denominator)).Representable := by
  rcases round_cases single numerator denominator with ⟨below, round_eq⟩ | ⟨-, round_eq⟩
  · rw [round_eq]
    exact ⟨represents_nearest (by decide) numerator denominator, below⟩
  · rw [round_eq]
    trivial

theorem Value.representable_scale (factor : Nat) (given : Value) :
    (given.scale factor).Representable := by
  cases given with
  | nan => trivial
  | infinite negative => trivial
  | finite negative units => exact representable_round negative _ _

namespace Single

/-- The fields of a finite number are read from its bits. -/
theorem value_of_fields {number : Single} {negative : Bool} {field fraction : Nat}
    (field_lt : field < 255) (fraction_lt : fraction < 2 ^ 23)
    (bits_eq : number.bits.toNat = ofValue.sign negative + field * 2 ^ 23 + fraction) :
    number.value = .finite negative
      (if field = 0 then fraction else (2 ^ 23 + fraction) * 2 ^ (field - 1)) := by
  have sign_eq : ofValue.sign negative = if negative then 2 ^ 31 else 0 := by
    cases negative <;> rfl
  rw [sign_eq] at bits_eq
  have negative_eq : decide (2 ^ 31 ≤ number.bits.toNat) = negative := by
    rw [bits_eq]
    cases negative with
    | false =>
        apply decide_eq_false
        rw [if_neg Bool.false_ne_true]
        omega
    | true =>
        apply decide_eq_true
        rw [if_pos rfl]
        omega
  have field_eq : number.bits.toNat / 2 ^ 23 % 2 ^ 8 = field := by
    rw [bits_eq]
    split <;> omega
  have fraction_eq : number.bits.toNat % 2 ^ 23 = fraction := by
    rw [bits_eq]
    split <;> omega
  unfold value
  simp only [Nat.one_shiftLeft, negative_eq, field_eq, fraction_eq]
  rw [if_neg (by omega)]
  split <;> rfl

/-- The field that tells how far a significand is shifted; without it a number
is subnormal. -/
def exponentField (units : Nat) : Nat :=
  bitLength units - 23

/-- The bits of a significand that are stored. -/
def fractionField (units : Nat) : Nat :=
  if exponentField units = 0 then units else units / 2 ^ (exponentField units - 1) - 2 ^ 23

section Fields

variable {units : Nat}

theorem exponentField_lt (units_lt : units < 2 ^ single.rangeBits) : exponentField units < 255 := by
  have length_le : bitLength units ≤ single.rangeBits := bitLength_le_iff.mpr units_lt
  change bitLength units ≤ 277 at length_le
  unfold exponentField
  omega

theorem fractionField_lt (units : Nat) : fractionField units < 2 ^ 23 := by
  have units_lt : units < 2 ^ bitLength units := bitLength_le_iff.mp le_rfl
  unfold fractionField
  split_ifs with subnormal
  · exact units_lt.trans_le (Nat.pow_le_pow_right Nat.two_pos (by unfold exponentField at *; omega))
  · have significand_lt : units / 2 ^ (exponentField units - 1) < 2 ^ 24 := by
      rw [Nat.div_lt_iff_lt_mul (Nat.two_pow_pos _), ← pow_add, ← bitLength_le_iff]
      unfold exponentField at *
      omega
    omega

theorem units_of_fields (represents : single.Represents units) :
    (if exponentField units = 0 then fractionField units
      else (2 ^ 23 + fractionField units) * 2 ^ (exponentField units - 1)) = units := by
  unfold fractionField
  split_ifs with subnormal
  · rfl
  · have excess_eq : single.excessBits units = exponentField units - 1 := by
      change bitLength units - 24 = bitLength units - 23 - 1
      omega
    have le_significand : 2 ^ 23 ≤ units / 2 ^ (exponentField units - 1) := by
      rw [Nat.le_div_iff_mul_le (Nat.two_pow_pos _), ← pow_add, ← not_lt, ← bitLength_le_iff]
      unfold exponentField at *
      omega
    rw [Represents, spacing_eq, excess_eq] at represents
    rw [Nat.add_sub_cancel' le_significand, Nat.div_mul_cancel represents]

end Fields

/-- The bits of a finite number are the sum of its fields. -/
theorem toNat_ofValue_finite (negative : Bool) {units : Nat}
    (units_lt : units < 2 ^ single.rangeBits) :
    (ofValue (.finite negative units)).bits.toNat =
      ofValue.sign negative + exponentField units * 2 ^ 23 + fractionField units := by
  have sign_le : ofValue.sign negative ≤ 2 ^ 31 := by cases negative <;> decide
  have field_lt := exponentField_lt units_lt
  have fraction_lt := fractionField_lt units
  unfold ofValue
  simp only [Nat.one_shiftLeft]
  apply UInt32.toNat_ofNat_of_lt'
  change ofValue.sign negative + exponentField units * 2 ^ 23 + fractionField units < 2 ^ 32
  omega

/-- A value of the format is read back from its bits. -/
theorem value_ofValue {given : Value} (representable : given.Representable) :
    (ofValue given).value = given := by
  cases given with
  | nan => decide
  | infinite negative => cases negative <;> decide
  | finite negative units =>
      rcases representable with ⟨represents, units_lt⟩
      rw [value_of_fields (exponentField_lt units_lt) (fractionField_lt units)
        (toNat_ofValue_finite negative units_lt), units_of_fields represents]

/-- Every number has a value of the format. -/
theorem representable_value (number : Single) : number.value.Representable := by
  have field_lt : number.bits.toNat / 2 ^ 23 % 2 ^ 8 < 2 ^ 8 := Nat.mod_lt _ (by decide)
  have fraction_lt : number.bits.toNat % 2 ^ 23 < 2 ^ 23 := Nat.mod_lt _ (by decide)
  unfold value
  simp only [Nat.one_shiftLeft]
  generalize number.bits.toNat / 2 ^ 23 % 2 ^ 8 = field at *
  generalize number.bits.toNat % 2 ^ 23 = fraction at *
  split_ifs
  · trivial
  · trivial
  · rw [← Nat.mul_one fraction, ← pow_zero 2]
    exact Value.representable_of_significand _ (by omega) (by decide)
  · exact Value.representable_of_significand _ (by omega) (by omega)

theorem value_scale (factor : Nat) (number : Single) :
    (number.scale factor).value = number.value.scale factor :=
  value_ofValue (Value.representable_scale factor number.value)

/-- A natural number with few bits is a number of the format. -/
theorem value_ofNat (negative : Bool) {n : Nat} (small : n < 2 ^ 24) :
    (ofNat n negative).value = .finite negative (n * single.one) := by
  have nearest_eq : single.nearest (n * single.one) 1 = n * single.one := by
    simpa using nearest_of_represents (represents_mul_one small.le) Nat.one_pos
  have below : n * single.one < 2 ^ single.rangeBits := by
    calc
      n * single.one < 2 ^ 24 * single.one := Nat.mul_lt_mul_of_pos_right small single.one_pos
      _ < 2 ^ single.rangeBits := two_pow_mul_one_lt
  rw [ofNat, Format.ofNat, value_ofValue (Value.representable_round negative _ 1)]
  rcases round_cases single (n * single.one) 1 with ⟨-, round_eq⟩ | ⟨le, -⟩
  · rw [round_eq, nearest_eq]
    rfl
  · rw [nearest_eq] at le
    exact absurd below (not_lt.mpr le)

end Single

/-! ## Natural numbers -/

namespace Value

variable (limit factor : Nat)

/-- The natural number that a magnitude comes to if it is scaled. -/
def scaledUnits (units : Nat) : Nat :=
  (ofMagnitude false (single.mul units (factor * single.one))).toNatSaturating limit

theorem toNatSaturating_le (given : Value) : given.toNatSaturating limit ≤ limit := by
  cases given with
  | nan => exact Nat.zero_le limit
  | infinite negative => cases negative <;> simp [toNatSaturating]
  | finite negative units => cases negative <;> simp [toNatSaturating]

theorem scaledUnits_zero : scaledUnits limit factor 0 = 0 := by
  have mul_zero : single.mul 0 (factor * single.one) = some 0 := by
    rw [mul, Nat.zero_mul]
    decide +kernel
  rw [scaledUnits, mul_zero]
  exact Nat.zero_min limit

/-- A greater magnitude comes to no smaller number. -/
theorem scaledUnits_mono : Monotone (scaledUnits limit factor) := by
  intro first second le
  have nearest_le := single.nearest_mono (by decide) single.one
    (Nat.mul_le_mul_right (factor * single.one) le)
  unfold scaledUnits mul
  rcases round_cases single (second * (factor * single.one)) single.one with
    ⟨second_lt, second_eq⟩ | ⟨-, second_eq⟩
  · rcases round_cases single (first * (factor * single.one)) single.one with
      ⟨-, first_eq⟩ | ⟨le_first, -⟩
    · rw [first_eq, second_eq]
      exact min_le_min_right limit (roundQuotient_mono .upward single.one nearest_le)
    · exact absurd (nearest_le.trans_lt second_lt) (not_lt.mpr le_first)
  · rw [second_eq]
    exact toNatSaturating_le limit _

/-- Only the rank of a number decides what it comes to. -/
theorem toNatSaturating_scale {given : Value} (representable : given.Representable) {rank : Int}
    (rank_eq : given.rank = some rank) :
    (given.scale factor).toNatSaturating limit =
      if rank < 1 <<< 278 then scaledUnits limit factor rank.toNat else limit := by
  have nonpositive {rank : Int} (le : rank ≤ 0) : scaledUnits limit factor rank.toNat = 0 := by
    rw [Int.toNat_of_nonpos le, scaledUnits_zero]
  cases given with
  | nan => cases rank_eq
  | infinite negative =>
      cases rank_eq
      cases negative with
      | true =>
          rw [if_pos (by decide +kernel), nonpositive (by decide +kernel)]
          rfl
      | false => exact (if_neg (by decide +kernel)).symm
  | finite negative units =>
      have bound_lt : ((2 ^ single.rangeBits : Nat) : Int) < 1 <<< 278 := by decide +kernel
      have units_lt := representable.2
      cases negative with
      | true =>
          obtain rfl : -(units : Int) = rank := Option.some.inj rank_eq
          rw [if_pos (by omega), nonpositive (by omega), scale]
          cases single.mul units (factor * single.one) <;> rfl
      | false =>
          obtain rfl : (units : Int) = rank := Option.some.inj rank_eq
          rw [if_pos (by omega)]
          rfl

theorem toNatSaturating_scale_mono {first second : Value} {firstRank secondRank : Int}
    (firstRepresentable : first.Representable) (secondRepresentable : second.Representable)
    (firstRank_eq : first.rank = some firstRank) (secondRank_eq : second.rank = some secondRank)
    (le : firstRank ≤ secondRank) :
    (first.scale factor).toNatSaturating limit ≤ (second.scale factor).toNatSaturating limit := by
  rw [toNatSaturating_scale limit factor firstRepresentable firstRank_eq,
    toNatSaturating_scale limit factor secondRepresentable secondRank_eq]
  split_ifs with first_lt second_lt
  · exact scaledUnits_mono limit factor (Int.toNat_le_toNat le)
  · exact toNatSaturating_le limit _
  · exact absurd (le.trans_lt ‹_›) first_lt
  · exact le_rfl

/-! ### Accuracy -/

section Accuracy

variable {limit factor} {units : Nat}

theorem nearest_le (small : units * factor < 2 ^ 24 * single.one) :
    single.nearest (units * (factor * single.one)) single.one ≤ 2 ^ 24 * single.one := by
  have numerator_le : units * (factor * single.one) ≤ 2 ^ 24 * single.one * single.one := by
    rw [← Nat.mul_assoc]
    exact Nat.mul_le_mul_right _ small.le
  calc
    single.nearest (units * (factor * single.one)) single.one
        ≤ single.nearest (2 ^ 24 * single.one * single.one) single.one :=
          single.nearest_mono (by decide) single.one numerator_le
    _ = 2 ^ 24 * single.one := nearest_of_represents (represents_mul_one le_rfl) single.one_pos

/-- There is room for a product that is not too large. -/
theorem scaledUnits_eq (small : units * factor < 2 ^ 24 * single.one) (limit_ge : 2 ^ 24 ≤ limit) :
    scaledUnits limit factor units =
      roundQuotient .upward (single.nearest (units * (factor * single.one)) single.one)
        single.one := by
  have rounded_le : roundQuotient .upward
      (single.nearest (units * (factor * single.one)) single.one) single.one ≤ 2 ^ 24 := by
    rw [← roundQuotient_mul .upward single.one_pos (2 ^ 24)]
    exact roundQuotient_mono .upward single.one (nearest_le small)
  unfold scaledUnits mul
  rcases round_cases single (units * (factor * single.one)) single.one with
    ⟨-, round_eq⟩ | ⟨le, -⟩
  · rw [round_eq]
    exact min_eq_left (rounded_le.trans limit_ge)
  · exact absurd (le.trans (nearest_le small)) (not_le.mpr two_pow_mul_one_lt)

/-- A product that is not too large comes to a number at most one away: each time
that it is rounded adds a half. -/
theorem scaledUnits_close (small : units * factor < 2 ^ 24 * single.one)
    (limit_ge : 2 ^ 24 ≤ limit) :
    scaledUnits limit factor units * single.one ≤ units * factor + single.one ∧
      units * factor ≤ scaledUnits limit factor units * single.one + single.one := by
  rw [scaledUnits_eq small limit_ge, ← Nat.mul_assoc]
  have first := single.nearest_mul_close single.one_pos (units * factor)
  have second := roundQuotient_close .upward
    (single.nearest (units * factor * single.one) single.one) single.one_pos
  have excess_le : single.excessBits (units * factor) ≤ single.fractionBits := by
    rwa [excessBits_le_iff, pow_add, ← one_eq]
  have spacing_le : single.spacing (units * factor) ≤ single.one := by
    rw [spacing_eq, one_eq]
    exact Nat.pow_le_pow_right Nat.two_pos excess_le
  omega

/-- A product that is a natural number is exact if the format has it. -/
theorem scaledUnits_of_product {product : Nat} (product_eq : units * factor = product * single.one)
    (product_lt : product < 2 ^ 24) (limit_ge : 2 ^ 24 ≤ limit) :
    scaledUnits limit factor units = product := by
  have small : units * factor < 2 ^ 24 * single.one := by
    rw [product_eq]
    exact Nat.mul_lt_mul_of_pos_right product_lt single.one_pos
  rw [scaledUnits_eq small limit_ge, ← Nat.mul_assoc, product_eq,
    nearest_of_represents (represents_mul_one product_lt.le) single.one_pos,
    roundQuotient_mul _ single.one_pos]

end Accuracy

end Value

end CoinSelection.Binary
