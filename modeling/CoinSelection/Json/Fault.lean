/-!
# Faults of a JSON text

Reading a text fails in one of three ways.  Which one is reported depends on
what the reader meets first, from left to right.
-/

namespace CoinSelection.Json

/-- Why a text could not be read as the value asked for. -/
inductive Fault
  /-- The text is not well formed. -/
  | malformed
  /-- The text ends too early. -/
  | truncated
  /-- The text is well formed so far, but the value has the wrong shape. -/
  | mismatched
  deriving DecidableEq, Repr

end CoinSelection.Json
