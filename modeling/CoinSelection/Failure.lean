import CoinSelection.Binary.Shortest
import CoinSelection.Json.Fault
import CoinSelection.OutPoint

/-!
# Failures

A computation can fail in two ways.  An `Error` is an answer: the request was
understood and cannot be met.  An `Abort` is a broken assumption: a sum or a
product does not fit its machine word, or a search was started on candidates
it must not see.  The two are never mixed, and each has its own wording.
-/

namespace CoinSelection

/-! ## Errors -/

/-- Why a request was refused. -/
inductive Error
  | totalOverflow
  | duplicateUtxo (outpoint : OutPoint)
  | insufficientFunds (needed available : Nat)
  | triesExceeded
  | noExactMatch
  | invalidFeeRate (rate : Binary.Single)
  | descriptor
  | json (fault : Json.Fault)
  | hex (defect : Hex.Defect)
  deriving DecidableEq

/-- The wording of an error.  A text that cannot be read as JSON or as a
descriptor has no wording of its own. -/
def Error.message? : Error → Option String
  | .totalOverflow =>
      some "Generic error: the total value of the candidates overflows an i64"
  | .duplicateUtxo outpoint =>
      some ("Generic error: Duplicate utxo in request: " ++ outpoint.display)
  | .insufficientFunds needed available =>
      some s!"Insufficient funds: {available} sat available of {needed} sat needed"
  | .triesExceeded => some "Branch and bound coin selection: total tries exceeded"
  | .noExactMatch => some "Branch and bound coin selection: not exact match"
  | .invalidFeeRate rate => some ("Invalid fee rate: " ++ rate.message ++ " sat/vbyte")
  | .descriptor => none
  | .json _ => none
  | .hex defect => some ("Hex decoding error: " ++ defect.message)

/-! ## Aborts -/

/-- The operations whose result may not fit. -/
inductive Operation
  | add
  | subtract
  | multiply
  deriving DecidableEq

/-- The name of an operation in a message. -/
def Operation.name : Operation → String
  | .add => "add"
  | .subtract => "subtract"
  | .multiply => "multiply"

/-- A broken assumption. -/
inductive Abort
  /-- A result does not fit its machine word. -/
  | overflow (operation : Operation)
  /-- A search was given a candidate that is not worth spending. -/
  | worthlessCandidate (outpoint : OutPoint) (effectiveValue : Int)
  /-- A search looked for a candidate after the last one. -/
  | missingCandidate (position : Nat)
  deriving DecidableEq

/-- The wording of an abort. -/
def Abort.message : Abort → String
  | .overflow operation => s!"attempt to {operation.name} with overflow"
  | .worthlessCandidate outpoint effectiveValue =>
      "branch and bound candidate " ++ outpoint.display ++
        s!" has a non-positive effective value: {effectiveValue}"
  | .missingCandidate position =>
      s!"index out of bounds: the len is {position} but the index is {position}"

/-! ## Outcomes -/

/-- Everything that can go wrong. -/
inductive Failure
  | error (error : Error)
  | abort (abort : Abort)
  deriving DecidableEq

/-- A result or a failure. -/
abbrev Outcome (α : Type) : Type :=
  Except Failure α

/-- Refuse a request. -/
def refuse {α : Type} (error : Error) : Outcome α :=
  .error (.error error)

/-- Give up on a broken assumption. -/
def abort {α : Type} (cause : Abort) : Outcome α :=
  .error (.abort cause)

end CoinSelection
