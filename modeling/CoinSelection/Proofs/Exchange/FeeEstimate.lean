import CoinSelection.Exchange.FeeEstimate
import CoinSelection.Proofs.Exchange.RoundTrip
import CoinSelection.Proofs.FeeRate
import CoinSelection.Proofs.Sums

/-!
# Estimating fees

The fee of a transaction is its size times the rate, rounded down, and never
less than the least fee that is relayed.  The text of a request is answered with
that fee.  It is refused if it cannot be read or if its rate is not valid, and
the product of size and rate has to be a word.
-/

namespace CoinSelection

open Checked Json Outcome

/-! ## Fees of transactions -/

/-- The fee of a transaction, whether or not the product of size and rate is a
word. -/
def exactTransactionFee (size rate : Nat) : Nat :=
  max (size * rate / 1000) minimumRelayFee

theorem transactionFee_eq (size : Nat) (virtualSize : Option Nat) (rate : Nat) :
    transactionFee size virtualSize rate =
      if virtualSize.getD size * rate < wordBound then
        .ok (exactTransactionFee (virtualSize.getD size) rate)
      else abort (.overflow .multiply) := by
  unfold transactionFee mul below
  split <;> rfl

/-- A fee above the least one that is relayed is the exact product to within one
satoshi, and not more. -/
theorem exactTransactionFee_bounds {size rate : Nat}
    (higher : minimumRelayFee < exactTransactionFee size rate) :
    exactTransactionFee size rate * 1000 ≤ size * rate ∧
      size * rate < (exactTransactionFee size rate + 1) * 1000 := by
  unfold exactTransactionFee at *
  omega

/-- A larger transaction costs no less, and a higher rate neither. -/
theorem exactTransactionFee_mono {size rate otherSize otherRate : Nat} (size_le : size ≤ otherSize)
    (rate_le : rate ≤ otherRate) :
    exactTransactionFee size rate ≤ exactTransactionFee otherSize otherRate :=
  max_le_max_right minimumRelayFee (Nat.div_le_div_right (Nat.mul_le_mul size_le rate_le))

/-- Where the product is a word, so is the fee. -/
theorem exactTransactionFee_lt {size rate : Nat} (fits : size * rate < wordBound) :
    exactTransactionFee size rate < wordBound :=
  max_lt ((Nat.div_le_self _ _).trans_lt fits) (by decide)

/-! ## Requests and responses -/

theorem FeeResponse.carries_toJson (response : FeeResponse) :
    response.toJson.Carries FeeResponse.ofJson response := by
  apply Record.Follows.object (by decide)
  apply Record.Follows.required (carries_word response.fee)
  exact .done

namespace FeeRequest

/-- The size that counts: the virtual one where it is known. -/
def countedSize (request : FeeRequest) : Nat :=
  (request.virtualSize.map UInt64.toNat).getD request.size.toNat

/-- The fee that a request asks for. -/
def exactFee (request : FeeRequest) : Nat :=
  exactTransactionFee request.countedSize request.rate.toSatPerKvb

/-- The product that the fee is computed from is a word. -/
def Fits (request : FeeRequest) : Prop :=
  request.countedSize * request.rate.toSatPerKvb < wordBound

instance (request : FeeRequest) : Decidable request.Fits :=
  inferInstanceAs (Decidable (_ < _))

/-- The rate is checked before the product is formed. -/
theorem answer_eq (request : FeeRequest) :
    request.answer =
      if request.rate.isValid then
        if request.Fits then .ok { fee := UInt64.ofNat request.exactFee }
        else abort (.overflow .multiply)
      else refuse (.invalidFeeRate request.rate.satPerVbyte) := by
  have fee_eq : transactionFee request.size.toNat (request.virtualSize.map UInt64.toNat)
      request.rate.toSatPerKvb =
        if request.Fits then .ok request.exactFee else abort (.overflow .multiply) :=
    transactionFee_eq ..
  rw [answer, fee_eq]
  cases valid : request.rate.isValid with
  | false =>
      rw [FeeRate.validate_eq_error_iff.mpr ⟨valid, rfl⟩]
      rfl
  | true =>
      rw [FeeRate.validate_eq_ok_iff.mpr valid, ok_bind, if_pos rfl]
      split <;> rfl

example :
    answer { size := 500, virtualSize := some 300, rate := ⟨.ofNat 10 false⟩ } =
      .ok { fee := 3000 } := by
  decide +kernel

/-- A response has the exact fee. -/
theorem answer_eq_ok_iff {request : FeeRequest} {response : FeeResponse} :
    request.answer = .ok response ↔
      request.rate.isValid = true ∧ request.Fits ∧ response.fee.toNat = request.exactFee := by
  rw [answer_eq]
  constructor
  · intro answered
    split at answered
    · split at answered
      · cases answered
        exact ⟨‹_›, ‹_›, UInt64.toNat_ofNat_of_lt' (exactTransactionFee_lt ‹_›)⟩
      · cases answered
    · cases answered
  · rintro ⟨valid, fits, fee_eq⟩
    rw [if_pos valid, if_pos fits, ← fee_eq, UInt64.ofNat_toNat]

/-- There is no response for one of two reasons, and a rate that is not valid is
found first. -/
theorem answer_eq_error_iff {request : FeeRequest} {failure : Failure} :
    request.answer = .error failure ↔
      (request.rate.isValid = false ∧
          failure = .error (.invalidFeeRate request.rate.satPerVbyte)) ∨
        (request.rate.isValid = true ∧ ¬ request.Fits ∧
          failure = .abort (.overflow .multiply)) := by
  rw [answer_eq]
  constructor
  · intro failed
    split at failed
    · split at failed
      · cases failed
      · cases failed
        exact .inr ⟨‹_›, ‹_›, rfl⟩
    · cases failed
      exact .inl ⟨Bool.not_eq_true _ ▸ ‹_›, rfl⟩
  · rintro (⟨invalid, rfl⟩ | ⟨valid, tooLarge, rfl⟩)
    · rw [if_neg (Bool.not_eq_true _ ▸ invalid)]
      rfl
    · rw [if_pos valid, if_neg tooLarge]
      rfl

/-- A request for a transaction that is no larger, at a rate that compares no
higher, has a response where the other request has one, and its fee is no higher. -/
theorem answer_mono {request other : FeeRequest} {more : FeeResponse} {order : Ordering}
    (valid : request.rate.isValid = true) (size_le : request.countedSize ≤ other.countedSize)
    (compared : request.rate.compare? other.rate = some order) (isLE : order.isLE = true)
    (answered : other.answer = .ok more) :
    ∃ less, request.answer = .ok less ∧ less.fee ≤ more.fee := by
  have rate_le := FeeRate.toSatPerKvb_mono compared isLE
  rcases answer_eq_ok_iff.mp answered with ⟨-, otherFits, more_eq⟩
  have fits : request.Fits := (Nat.mul_le_mul size_le rate_le).trans_lt otherFits
  have less_eq : (UInt64.ofNat request.exactFee).toNat = request.exactFee :=
    UInt64.toNat_ofNat_of_lt' (exactTransactionFee_lt fits)
  refine ⟨{ fee := UInt64.ofNat request.exactFee }, ?_, ?_⟩
  · exact answer_eq_ok_iff.mpr ⟨valid, fits, less_eq⟩
  · rw [UInt64.le_iff_toNat_le, less_eq, more_eq]
    exact exactTransactionFee_mono size_le rate_le

end FeeRequest

/-! ## Texts -/

section Texts

variable {text answer : String}

/-- Whoever reads an answer gets the exact fee, and only a request with a valid
rate and a product that is a word has one. -/
theorem answerFee_eq_ok_iff :
    answerFee text = .ok answer ↔
      ∃ request response, requireJson FeeRequest.ofJson text = .ok request ∧
        request.rate.isValid = true ∧ request.Fits ∧
        response.fee.toNat = request.exactFee ∧ answer = response.toJson.render ∧
        requireJson FeeResponse.ofJson answer = .ok response := by
  constructor
  · intro answered
    rcases bind_eq_ok_iff.mp answered with ⟨request, parses, answered⟩
    rcases bind_eq_ok_iff.mp answered with ⟨response, responds, answered⟩
    cases answered
    rcases FeeRequest.answer_eq_ok_iff.mp responds with ⟨valid, fits, fee_eq⟩
    refine ⟨request, response, parses, valid, fits, fee_eq, rfl, ?_⟩
    rw [requireJson, response.carries_toJson.parse_render]
  · rintro ⟨request, response, parses, valid, fits, fee_eq, rfl, -⟩
    have responds := FeeRequest.answer_eq_ok_iff.mpr ⟨valid, fits, fee_eq⟩
    rw [answerFee, parses, ok_bind, responds]
    rfl

/-- A text without an answer cannot be read, or its rate is named in a refusal,
or the product of size and rate is no word. -/
theorem answerFee_eq_error_iff {failure : Failure} :
    answerFee text = .error failure ↔
      requireJson FeeRequest.ofJson text = .error failure ∨
        ∃ request, requireJson FeeRequest.ofJson text = .ok request ∧
          ((request.rate.isValid = false ∧
              failure = .error (.invalidFeeRate request.rate.satPerVbyte)) ∨
            (request.rate.isValid = true ∧ ¬ request.Fits ∧
              failure = .abort (.overflow .multiply))) := by
  rw [answerFee, bind_eq_error_iff]
  refine or_congr_right (exists_congr fun request => and_congr_right fun _ => ?_)
  rw [bind_eq_error_iff, FeeRequest.answer_eq_error_iff]
  constructor
  · rintro (fails | ⟨response, -, writes⟩)
    · exact fails
    · cases writes
  · exact Or.inl

/-- No answer is below the least fee that is relayed. -/
theorem minimumRelayFee_le_of_answerFee {response : FeeResponse}
    (answered : answerFee text = .ok answer)
    (read : requireJson FeeResponse.ofJson answer = .ok response) :
    minimumRelayFee ≤ response.fee.toNat := by
  rcases answerFee_eq_ok_iff.mp answered with ⟨request, other, -, -, -, fee_eq, -, otherRead⟩
  obtain rfl : other = response := Except.ok.inj (otherRead.symm.trans read)
  rw [fee_eq]
  exact le_max_right _ _

end Texts

end CoinSelection
