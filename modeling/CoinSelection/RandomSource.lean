import CoinSelection.Failure

/-!
# Sources of randomness

A source is an unbounded sequence of words.  A computation that draws from it
keeps the number of words drawn so far, also when it fails.
-/

namespace CoinSelection

/-- The words of a source, in the order in which they are drawn. -/
abbrev RandomSource : Type :=
  Nat → UInt64

namespace RandomSource

/-! ## Two sources -/

/-- Mix the bits of a counter. -/
def mix (counter : UInt64) : UInt64 :=
  let first := (counter ^^^ (counter >>> 30)) * 0xBF58476D1CE4E5B9
  let second := (first ^^^ (first >>> 27)) * 0x94D049BB133111EB
  second ^^^ (second >>> 31)

/-- The mixed multiples of an odd step, counted from a seed. -/
def ofSeed (seed : UInt64) : RandomSource :=
  fun position => mix (seed + (UInt64.ofNat position + 1) * 0x9E3779B97F4A7C15)

/-- The given words, over and over. -/
def cycle (words : Array UInt64) : RandomSource :=
  fun position => words.getD (position % words.size) 0

end RandomSource

/-! ## Drawing -/

/-- A computation that draws words and counts them. -/
abbrev Draw (α : Type) : Type :=
  ExceptT Failure (StateM Nat) α

namespace Draw

/-- Run a computation after `drawn` words have been drawn. -/
def run {α : Type} (computation : Draw α) (drawn : Nat) : Outcome α × Nat :=
  StateT.run (ExceptT.run computation) drawn

/-- A computation that draws nothing. -/
def ofOutcome {α : Type} (outcome : Outcome α) : Draw α :=
  ExceptT.mk (pure outcome)

/-- Toss a fair coin with one word: heads if its highest bit is clear. -/
def toss (source : RandomSource) : Draw Bool := do
  let drawn ← get
  set (drawn + 1)
  return source drawn < 0x8000000000000000

@[simp]
theorem run_ofOutcome {α : Type} (outcome : Outcome α) (drawn : Nat) :
    (ofOutcome outcome).run drawn = (outcome, drawn) :=
  rfl

@[simp]
theorem run_toss (source : RandomSource) (drawn : Nat) :
    (toss source).run drawn = (.ok (decide (source drawn < 0x8000000000000000)), drawn + 1) :=
  rfl

end Draw

end CoinSelection
