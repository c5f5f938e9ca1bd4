import CoinSelection.Failure

/-!
# Checked and saturating arithmetic

Amounts, fees, weights and sizes are natural numbers below `2 ^ 64`; effective
values and waste are integers that a signed word of sixty-four bits holds.
Sums, differences and products are formed exactly and then checked against the
range of the word they go into.
-/

namespace CoinSelection.Checked

/-! ## Ranges -/

/-- The bound of an unsigned word. -/
def wordBound : Nat := 1 <<< 64

/-- The greatest unsigned word. -/
def greatestWord : Nat := wordBound - 1

/-- The bound of a block height. -/
def heightBound : Nat := 1 <<< 32

/-- The greatest signed word. -/
def greatestSigned : Int := 1 <<< 63 - 1

/-- The least signed word. -/
def leastSigned : Int := -1 <<< 63

/-- Whether an integer fits a signed word. -/
def FitsSigned (n : Int) : Prop :=
  leastSigned ≤ n ∧ n ≤ greatestSigned

instance (n : Int) : Decidable (FitsSigned n) :=
  inferInstanceAs (Decidable (_ ∧ _))

/-! ## Checked operations -/

/-- Keep a result below its bound. -/
def below (bound : Nat) (operation : Operation) (result : Nat) : Outcome Nat :=
  if result < bound then .ok result else abort (.overflow operation)

/-- Keep a result that fits a signed word. -/
def signed (operation : Operation) (result : Int) : Outcome Int :=
  if FitsSigned result then .ok result else abort (.overflow operation)

/-- The sum of two words. -/
def add (first second : Nat) : Outcome Nat :=
  below wordBound .add (first + second)

/-- The product of two words. -/
def mul (first second : Nat) : Outcome Nat :=
  below wordBound .multiply (first * second)

/-- The sum of a list of words, from the left. -/
def sum (words : List Nat) : Outcome Nat :=
  words.foldlM add 0

/-- The sum of two signed words. -/
def addSigned (first second : Int) : Outcome Int :=
  signed .add (first + second)

/-- The difference of two signed words. -/
def subSigned (first second : Int) : Outcome Int :=
  signed .subtract (first - second)

/-- The sum of a list of signed words, from the left. -/
def sumSigned (words : List Int) : Outcome Int :=
  words.foldlM addSigned 0

/-! ## Saturation and reinterpretation -/

/-- The sum of two words, or the greatest word. -/
def saturatingAdd (first second : Nat) : Nat :=
  min (first + second) greatestWord

/-- The sum of a list of words, or the greatest word. -/
def saturatingSum (words : List Nat) : Nat :=
  words.foldl saturatingAdd 0

/-- A word as a signed one, or the greatest signed word. -/
def clampSigned (word : Nat) : Int :=
  min (word : Int) greatestSigned

/-- A word as a signed one, if it fits. -/
def toSigned? (word : Nat) : Option Int :=
  if (word : Int) ≤ greatestSigned then some word else none

/-- The sum of two signed words, kept inside the range. -/
def saturatingAddSigned (first second : Int) : Int :=
  max leastSigned (min (first + second) greatestSigned)

/-- The signed word with the same bits. -/
def reinterpret (word : Nat) : Int :=
  Int.bmod word wordBound

/-! ## Characterisations -/

theorem below_eq_ok_iff {bound : Nat} {operation : Operation} {result value : Nat} :
    below bound operation result = .ok value ↔ result < bound ∧ value = result := by
  by_cases fits : result < bound <;> simp [below, abort, fits, eq_comm]

theorem signed_eq_ok_iff {operation : Operation} {result value : Int} :
    signed operation result = .ok value ↔ FitsSigned result ∧ value = result := by
  by_cases fits : FitsSigned result <;> simp [signed, abort, fits, eq_comm]

theorem add_eq_ok_iff {first second value : Nat} :
    add first second = .ok value ↔ first + second < wordBound ∧ value = first + second :=
  below_eq_ok_iff

theorem mul_eq_ok_iff {first second value : Nat} :
    mul first second = .ok value ↔ first * second < wordBound ∧ value = first * second :=
  below_eq_ok_iff

theorem addSigned_eq_ok_iff {first second value : Int} :
    addSigned first second = .ok value ↔
      FitsSigned (first + second) ∧ value = first + second :=
  signed_eq_ok_iff

theorem subSigned_eq_ok_iff {first second value : Int} :
    subSigned first second = .ok value ↔
      FitsSigned (first - second) ∧ value = first - second :=
  signed_eq_ok_iff

end CoinSelection.Checked
