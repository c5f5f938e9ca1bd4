import CoinSelection.MultiAsset

/-!
# Wallets

A wallet is a pool of outputs with the filter and the options that its
selections use.  Spending removes the selected outputs and may put an output
with the change into the pool.

A session carries out commands one after another.  A command that fails leaves
the wallet as it was; the words that it has drawn stay drawn.
-/

namespace CoinSelection

/-- The outputs that return what a selection exceeds its target by: one at the
given outpoint, if there is any excess. -/
def Selection.changeOutputs (selection : Selection) : Option OutPoint → List Utxo
  | some outpoint =>
      if 0 < selection.excessValue then
        [{ outpoint, amount := UInt64.ofNat selection.excessValue }]
      else []
  | none => []

/-! ## Wallets -/

/-- A pool of outputs, and how selections are made from it. -/
structure Wallet where
  pool : List Utxo := []
  filter : Filter := {}
  options : Options := {}
  deriving DecidableEq

namespace Wallet

/-- Put outputs behind those of the pool. -/
def add (wallet : Wallet) (utxos : List Utxo) : Wallet :=
  { wallet with pool := wallet.pool ++ utxos }

/-- Remove the output at a position, if there is one. -/
def drop (wallet : Wallet) (position : Nat) : Wallet :=
  { wallet with pool := wallet.pool.eraseIdx position }

/-- Select outputs to pay a target. -/
def select (source : RandomSource) (wallet : Wallet) (target : Nat) : Draw Selection :=
  CoinSelection.select source target wallet.pool wallet.filter wallet.options

/-- Select outputs to pay a target for each of some assets. -/
def selectAssets (source : RandomSource) (wallet : Wallet) (targets : ByAsset) :
    Draw AssetSelection :=
  CoinSelection.selectAssets source targets wallet.pool wallet.filter wallet.options

/-- The outputs of the pool without those that have the outpoint of a selected
one. -/
def remaining (wallet : Wallet) (selection : Selection) : List Utxo :=
  let spent := selection.selected.map Utxo.outpoint
  wallet.pool.filter fun utxo => ¬ spent.contains utxo.outpoint

/-- Spend the outputs of a selection.  The change goes to an outpoint if one is
given. -/
def settle (wallet : Wallet) (selection : Selection) (change : Option OutPoint) : Wallet :=
  { wallet with pool := wallet.remaining selection ++ selection.changeOutputs change }

/-- Select outputs to pay a target and spend them. -/
def spend (source : RandomSource) (wallet : Wallet) (target : Nat) (change : Option OutPoint) :
    Draw (Selection × Wallet) := do
  let selection ← wallet.select source target
  pure (selection, wallet.settle selection change)

end Wallet

/-! ## Commands -/

/-- What can be done with a wallet. -/
inductive Command
  | add (utxos : List Utxo)
  | drop (position : Nat)
  | useOptions (options : Options)
  | useFilter (filter : Filter)
  /-- Select outputs and leave them in the pool. -/
  | select (target : Nat)
  /-- Select outputs of some assets and leave them in the pool. -/
  | selectAssets (targets : ByAsset)
  | spend (target : Nat) (change : Option OutPoint)
  deriving DecidableEq

/-- What a command is answered. -/
inductive Reply
  | done
  | selected (selection : Selection)
  | selectedAssets (selection : AssetSelection)
  deriving DecidableEq

/-- Carry out a command. -/
def Wallet.perform (source : RandomSource) (wallet : Wallet) : Command → Draw (Reply × Wallet)
  | .add utxos => pure (.done, wallet.add utxos)
  | .drop position => pure (.done, wallet.drop position)
  | .useOptions options => pure (.done, { wallet with options })
  | .useFilter filter => pure (.done, { wallet with filter })
  | .select target => do
      let selection ← wallet.select source target
      pure (.selected selection, wallet)
  | .selectAssets targets => do
      let selection ← wallet.selectAssets source targets
      pure (.selectedAssets selection, wallet)
  | .spend target change => do
      let (selection, after) ← wallet.spend source target change
      pure (.selected selection, after)

/-! ## Sessions -/

/-- A wallet, and the number of words drawn so far. -/
structure Session where
  wallet : Wallet := {}
  drawn : Nat := 0
  deriving DecidableEq

namespace Session

/-- Carry out a command.  Only one that succeeds changes the wallet. -/
def step (source : RandomSource) (session : Session) (command : Command) :
    Outcome Reply × Session :=
  match (session.wallet.perform source command).run session.drawn with
  | (.ok (reply, wallet), drawn) => (.ok reply, { wallet, drawn })
  | (.error failure, drawn) => (.error failure, { session with drawn })

/-- Carry out commands one after another. -/
def run (source : RandomSource) (session : Session) : List Command → List (Outcome Reply) × Session
  | [] => ([], session)
  | command :: rest =>
      let (outcome, next) := session.step source command
      let (outcomes, last) := next.run source rest
      (outcome :: outcomes, last)

end Session

end CoinSelection
