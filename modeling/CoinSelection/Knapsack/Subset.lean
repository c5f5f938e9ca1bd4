import CoinSelection.Checked
import CoinSelection.RandomSource

/-!
# Approximate subset sums

Given values and a target below their sum, a thousand random trials look for a
subset whose sum reaches the target and exceeds it as little as possible.

A trial makes one pass over the values and takes each with probability one
half.  Whenever the sum reaches the target, the subset is compared with the
best one and the value just taken is put back.  If the first pass never
reached the target, a second pass takes every value that was not taken, in the
same way.
-/

namespace CoinSelection.Knapsack

/-- The number of trials. -/
def trials : Nat := 1000

/-! ## Subsets -/

/-- A value, and whether it is taken. -/
abbrev Item : Type :=
  Int × Bool

/-- Values of which none is taken. -/
def untaken (values : List Int) : List Item :=
  values.map fun value => (value, false)

/-- Which of the values are taken, and their sum. -/
structure Subset where
  mask : List Bool
  value : Int
  deriving DecidableEq, Repr

/-- A pass under way: what was decided about the values before this one, latest
first, their sum, whether the target was reached, and the best subset. -/
structure Pass where
  taken : List Bool := []
  total : Int := 0
  reached : Bool := false
  best : Subset

namespace Pass

/-- The decisions of a pass, first value first. -/
def mask (pass : Pass) : List Bool :=
  pass.taken.reverse

/-- Do not take a value. -/
def leave (pass : Pass) : Pass :=
  { pass with taken := false :: pass.taken }

/-- Keep a value that was taken before. -/
def keep (pass : Pass) : Pass :=
  { pass with taken := true :: pass.taken }

/-- Take a value, and put it back if the target is reached.  `later` are the
items after this one. -/
def take (target : Int) (value : Int) (later : List Item) (pass : Pass) : Outcome Pass := do
  let total ← Checked.addSigned pass.total value
  if total < target then
    pure { pass with taken := true :: pass.taken, total }
  else
    let best :=
      if total < pass.best.value then
        ⟨pass.mask ++ true :: later.map fun item => item.2, total⟩
      else pass.best
    let restored ← Checked.subSigned total value
    pure { taken := false :: pass.taken, total := restored, reached := true, best }

end Pass

/-! ## Trials -/

/-- The first pass: a coin is tossed for every value. -/
def randomPass (source : RandomSource) (target : Int) : List Item → Pass → Draw Pass
  | [], pass => pure pass
  | (value, _) :: rest, pass => do
      if ← Draw.toss source then
        let next ← Draw.ofOutcome (pass.take target value rest)
        randomPass source target rest next
      else
        randomPass source target rest pass.leave

/-- The second pass: every value not taken yet is taken. -/
def fillingPass (target : Int) : List Item → Pass → Outcome Pass
  | [], pass => .ok pass
  | (_, true) :: rest, pass => fillingPass target rest pass.keep
  | (value, false) :: rest, pass => do
      let next ← pass.take target value rest
      fillingPass target rest next

/-- One trial: the best subset after it. -/
def trial (source : RandomSource) (target : Int) (values : List Int) (best : Subset) :
    Draw Subset := do
  let first ← randomPass source target (untaken values) { best }
  if first.reached then
    pure first.best
  else
    let second ← Draw.ofOutcome (fillingPass target (values.zip first.mask)
      { total := first.total, best := first.best })
    pure second.best

/-- Trials until the target is met exactly or there have been enough. -/
def improve (source : RandomSource) (target : Int) (values : List Int) :
    Nat → Subset → Draw Subset
  | 0, best => pure best
  | count + 1, best => do
      if best.value = target then
        pure best
      else
        let next ← trial source target values best
        improve source target values count next

/-- A subset that reaches the target, close to it.  `total` is the sum of all
values. -/
def approximate (source : RandomSource) (values : List Int) (total target : Int) : Draw Subset :=
  improve source target values trials ⟨values.map fun _ => true, total⟩

end CoinSelection.Knapsack
