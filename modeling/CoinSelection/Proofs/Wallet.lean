import CoinSelection.Proofs.Funding
import CoinSelection.Proofs.Lists
import CoinSelection.Wallet

/-!
# What a session does to a wallet

Every command that succeeds takes some outputs out of the pool and puts others
into it; one that fails does neither.  A ledger records what has come in and
what has gone out.  Over any number of commands, whatever they are and whatever
a source has, no output is spent more often than it was put into the pool.  Where
no two outputs share an outpoint, none is spent twice and none is lost, and the
amounts add up: what is no longer in the pool has paid the targets and the fees.
-/

namespace CoinSelection

open Checked Outcome

/-! ## Spending a selection -/

namespace Wallet

variable {wallet : Wallet} {selection : Selection}

/-- After a selection has been spent, the pool holds the outputs without the
outpoint of a selected one, and the change. -/
theorem mem_pool_settle_iff {change : Option OutPoint} {utxo : Utxo} :
    utxo ∈ (wallet.settle selection change).pool ↔
      (utxo ∈ wallet.pool ∧ utxo.outpoint ∉ selection.selected.map Utxo.outpoint) ∨
        utxo ∈ selection.changeOutputs change := by
  simp [settle, remaining]

/-- The outputs of the pool with the outpoint of a selected one. -/
def removed (wallet : Wallet) (selection : Selection) : List Utxo :=
  wallet.pool.filter fun utxo => (selection.selected.map Utxo.outpoint).contains utxo.outpoint

/-- Every output of the pool either remains or is removed. -/
theorem remaining_append_removed (wallet : Wallet) (selection : Selection) :
    (wallet.remaining selection ++ wallet.removed selection).Perm wallet.pool := by
  simp only [remaining, removed, decide_not, Bool.decide_eq_true]
  exact List.perm_append_comm.trans (List.filter_append_perm _ wallet.pool)

theorem selected_sublist_removed (sublist : selection.selected.Sublist wallet.pool) :
    selection.selected.Sublist (wallet.removed selection) := by
  have each : ∀ utxo ∈ selection.selected,
      (selection.selected.map Utxo.outpoint).contains utxo.outpoint = true :=
    fun utxo member => List.contains_iff_mem.mpr (List.mem_map_of_mem member)
  have kept := sublist.filter fun utxo =>
    (selection.selected.map Utxo.outpoint).contains utxo.outpoint
  rwa [List.filter_eq_self.mpr each] at kept

/-- Where outpoints are distinct, only the selected outputs are removed. -/
theorem removed_eq (sublist : selection.selected.Sublist wallet.pool)
    (distinct : (wallet.pool.map Utxo.outpoint).Nodup) :
    wallet.removed selection = selection.selected := by
  apply filter_eq_of_sublist sublist (.of_map _ distinct)
  intro utxo member
  rw [List.contains_iff_mem]
  constructor
  · intro shared
    rcases List.mem_map.mp shared with ⟨other, selected, same⟩
    rwa [← List.inj_on_of_nodup_map distinct (sublist.subset selected) member same]
  · exact List.mem_map_of_mem

/-- What is removed makes way for the change. -/
theorem settle_perm (wallet : Wallet) (selection : Selection) (change : Option OutPoint) :
    ((wallet.settle selection change).pool ++ wallet.removed selection).Perm
      (wallet.pool ++ selection.changeOutputs change) := by
  change ((wallet.remaining selection ++ selection.changeOutputs change) ++
    wallet.removed selection).Perm _
  rw [List.append_assoc]
  apply (List.perm_append_comm.append_left (wallet.remaining selection)).trans
  rw [← List.append_assoc]
  exact (wallet.remaining_append_removed selection).append_right _

/-- The output at a position is the only one that is dropped, if there is one. -/
theorem drop_perm (wallet : Wallet) (position : Nat) :
    ((wallet.drop position).pool ++ wallet.pool[position]?.toList).Perm wallet.pool := by
  change (wallet.pool.eraseIdx position ++ wallet.pool[position]?.toList).Perm wallet.pool
  rcases Nat.lt_or_ge position wallet.pool.length with inside | outside
  · rw [List.getElem?_eq_getElem inside]
    exact (List.perm_append_singleton _ _).trans (List.getElem_cons_eraseIdx_perm inside)
  · rw [List.getElem?_eq_none outside, List.eraseIdx_of_length_le outside]
    exact .of_eq (List.append_nil _)

end Wallet

/-- What a selection exceeds its target by, unless that returns as change. -/
def Selection.excessFor (selection : Selection) : Option OutPoint → Nat
  | some _ => 0
  | none => selection.excessValue

/-- What is spent pays the target; the rest returns as change or does not. -/
theorem Selection.Balanced.totalAmount_selected {target : Nat} {pool : List Utxo}
    {selection : Selection} (balanced : selection.Balanced target pool)
    (change : Option OutPoint) :
    totalAmount selection.selected =
      target + totalAmount (selection.changeOutputs change) + selection.excessFor change := by
  rw [← balanced.selectedValue_eq, ← balanced.excessValue_eq, Nat.add_assoc]
  congr 1
  cases change with
  | none => exact (Nat.zero_add selection.excessValue).symm
  | some outpoint =>
      rw [changeOutputs]
      split
      · simp [totalAmount, excessFor, UInt64.toNat_ofNat_of_lt' balanced.excessValue_lt]
      · simpa [totalAmount, excessFor] using ‹¬ 0 < selection.excessValue›

/-! ## Ledgers -/

/-- What has come into a pool and what has gone out of it. -/
structure Ledger where
  added : List Utxo := []
  /-- The outputs that returned change. -/
  change : List Utxo := []
  spent : List Utxo := []
  dropped : List Utxo := []
  /-- The sum of the targets. -/
  paid : Nat := 0
  /-- The sum of what exceeded a target and did not return as change. -/
  fees : Nat := 0

namespace Ledger

/-- One ledger continued by another. -/
def append (first second : Ledger) : Ledger where
  added := first.added ++ second.added
  change := first.change ++ second.change
  spent := first.spent ++ second.spent
  dropped := first.dropped ++ second.dropped
  paid := first.paid + second.paid
  fees := first.fees + second.fees

instance : Append Ledger :=
  ⟨append⟩

def incoming (ledger : Ledger) : List Utxo :=
  ledger.added ++ ledger.change

def outgoing (ledger : Ledger) : List Utxo :=
  ledger.spent ++ ledger.dropped

@[simp]
theorem count_incoming_append (first second : Ledger) (utxo : Utxo) :
    (first ++ second).incoming.count utxo =
      first.incoming.count utxo + second.incoming.count utxo := by
  change List.count utxo ((first.added ++ second.added) ++ (first.change ++ second.change)) = _
  simp only [incoming, List.count_append]
  omega

@[simp]
theorem count_outgoing_append (first second : Ledger) (utxo : Utxo) :
    (first ++ second).outgoing.count utxo =
      first.outgoing.count utxo + second.outgoing.count utxo := by
  change List.count utxo ((first.spent ++ second.spent) ++ (first.dropped ++ second.dropped)) = _
  simp only [outgoing, List.count_append]
  omega

/-- A ledger accounts for the way from one pool to another. -/
structure Accounts (ledger : Ledger) (before after : List Utxo) : Prop where
  /-- No output stays or goes out more often than it was there or came in. -/
  covers : (after ++ ledger.outgoing).Subperm (before ++ ledger.incoming)
  /-- None is lost, if no two of them share an outpoint. -/
  complete : ((before ++ ledger.incoming).map Utxo.outpoint).Nodup →
    (after ++ ledger.outgoing).Perm (before ++ ledger.incoming)
  /-- What is spent pays the targets, returns as change or is left as a fee. -/
  balanced : totalAmount ledger.spent = ledger.paid + totalAmount ledger.change + ledger.fees

namespace Accounts

variable {ledger first second : Ledger} {before middle after : List Utxo}

/-- Nothing comes in and nothing goes out. -/
theorem unchanged (pool : List Utxo) : ({} : Ledger).Accounts pool pool where
  covers := List.Subperm.refl _
  complete := fun _ => List.Perm.refl _
  balanced := rfl

theorem of_perm (outputs : (after ++ ledger.outgoing).Perm (before ++ ledger.incoming))
    (balanced : totalAmount ledger.spent =
      ledger.paid + totalAmount ledger.change + ledger.fees) : ledger.Accounts before after where
  covers := outputs.subperm
  complete := fun _ => outputs
  balanced := balanced

/-- One way after another.  What the first one leaves in the pool can go out on
the second one, so outputs are counted on both ways together. -/
theorem append (firstAccounts : first.Accounts before middle)
    (secondAccounts : second.Accounts middle after) : (first ++ second).Accounts before after := by
  have firstCount := firstAccounts.covers.count_le
  have secondCount := secondAccounts.covers.count_le
  simp only [List.count_append] at firstCount secondCount
  constructor
  · rw [List.subperm_ext_iff]
    intro utxo _
    have firstLe := firstCount utxo
    have secondLe := secondCount utxo
    simp only [List.count_append, count_outgoing_append, count_incoming_append]
    omega
  · intro distinct
    have firstPart : (before ++ first.incoming).Subperm (before ++ (first ++ second).incoming) := by
      rw [List.subperm_ext_iff]
      intro utxo _
      simp only [List.count_append, count_incoming_append]
      omega
    have secondPart :
        (middle ++ second.incoming).Subperm (before ++ (first ++ second).incoming) := by
      rw [List.subperm_ext_iff]
      intro utxo _
      have firstLe := firstCount utxo
      simp only [List.count_append, count_incoming_append]
      omega
    have firstEq := (firstAccounts.complete (nodup_keys_of_subperm firstPart distinct)).count_eq
    have secondEq := (secondAccounts.complete (nodup_keys_of_subperm secondPart distinct)).count_eq
    simp only [List.count_append] at firstEq secondEq
    rw [List.perm_iff_count]
    intro utxo
    have first_eq := firstEq utxo
    have second_eq := secondEq utxo
    simp only [List.count_append, count_outgoing_append, count_incoming_append]
    omega
  · have first_eq := firstAccounts.balanced
    have second_eq := secondAccounts.balanced
    change totalAmount (first.spent ++ second.spent) = (first.paid + second.paid) +
      totalAmount (first.change ++ second.change) + (first.fees + second.fees)
    rw [totalAmount_append, totalAmount_append]
    omega

/-! ### What a ledger shows -/

/-- Where no two outputs share an outpoint, none is spent twice, none that has
been spent is still there, and still no two share one. -/
theorem outpoints_nodup (accounts : ledger.Accounts before after)
    (distinct : ((before ++ ledger.incoming).map Utxo.outpoint).Nodup) :
    (ledger.spent.map Utxo.outpoint).Nodup ∧ (after.map Utxo.outpoint).Nodup ∧
      ∀ utxo ∈ ledger.spent, utxo.outpoint ∉ after.map Utxo.outpoint := by
  have apart := nodup_keys_of_subperm accounts.covers distinct
  rw [outgoing, List.map_append, List.map_append, List.nodup_append] at apart
  rcases apart with ⟨afterDistinct, outgoingDistinct, disjoint⟩
  refine ⟨(List.nodup_append.mp outgoingDistinct).1, afterDistinct, ?_⟩
  intro utxo spent remains
  exact disjoint _ remains _ (List.mem_append_left _ (List.mem_map_of_mem spent)) rfl

/-- Whatever outpoints there are, no amount comes from nothing. -/
theorem totalAmount_le (accounts : ledger.Accounts before after) :
    totalAmount after + totalAmount ledger.dropped + ledger.paid + ledger.fees ≤
      totalAmount before + totalAmount ledger.added := by
  have total_le := totalAmount_subperm accounts.covers
  have spent_eq := accounts.balanced
  simp only [incoming, outgoing, totalAmount_append] at total_le
  omega

/-- Where no two outputs share an outpoint, no amount is lost. -/
theorem totalAmount_eq (accounts : ledger.Accounts before after)
    (distinct : ((before ++ ledger.incoming).map Utxo.outpoint).Nodup) :
    totalAmount after + totalAmount ledger.dropped + ledger.paid + ledger.fees =
      totalAmount before + totalAmount ledger.added := by
  have total_eq := totalAmount_perm (accounts.complete distinct)
  have spent_eq := accounts.balanced
  simp only [incoming, outgoing, totalAmount_append] at total_eq
  omega

end Accounts

end Ledger

/-! ## Commands -/

/-- What a command that is answered does to the pool. -/
def Wallet.entry (wallet : Wallet) : Command → Reply → Ledger
  | .add utxos, _ => { added := utxos }
  | .drop position, _ => { dropped := wallet.pool[position]?.toList }
  | .spend target change, .selected selection =>
      { change := selection.changeOutputs change
        spent := selection.selected
        paid := target
        fees := selection.excessFor change }
  | _, _ => {}

/-- All that a command can do if it succeeds after `drawn` words have been
drawn. -/
inductive Wallet.Performs (source : RandomSource) (wallet : Wallet) (drawn : Nat) :
    Command → Reply → Wallet → Nat → Prop
  | add (utxos : List Utxo) :
      Performs source wallet drawn (.add utxos) .done (wallet.add utxos) drawn
  | drop (position : Nat) :
      Performs source wallet drawn (.drop position) .done (wallet.drop position) drawn
  | useOptions (options : Options) :
      Performs source wallet drawn (.useOptions options) .done { wallet with options } drawn
  | useFilter (filter : Filter) :
      Performs source wallet drawn (.useFilter filter) .done { wallet with filter } drawn
  | select {target later : Nat} {selection : Selection}
      (selects : (wallet.select source target).run drawn = (.ok selection, later)) :
      Performs source wallet drawn (.select target) (.selected selection) wallet later
  | selectAssets {targets : ByAsset} {later : Nat} {selection : AssetSelection}
      (selects : (wallet.selectAssets source targets).run drawn = (.ok selection, later)) :
      Performs source wallet drawn (.selectAssets targets) (.selectedAssets selection) wallet later
  | spend {target later : Nat} {change : Option OutPoint} {selection : Selection}
      (selects : (wallet.select source target).run drawn = (.ok selection, later)) :
      Performs source wallet drawn (.spend target change) (.selected selection)
        (wallet.settle selection change) later

namespace Wallet

variable {source : RandomSource} {wallet after : Wallet} {drawn later : Nat} {command : Command}
  {reply : Reply}

theorem run_perform_eq_ok_iff :
    (wallet.perform source command).run drawn = (.ok (reply, after), later) ↔
      wallet.Performs source drawn command reply after later := by
  constructor
  · intro finished
    cases command with
    | add utxos =>
        cases finished
        exact .add utxos
    | drop position =>
        cases finished
        exact .drop position
    | useOptions options =>
        cases finished
        exact .useOptions options
    | useFilter filter =>
        cases finished
        exact .useFilter filter
    | select target =>
        rcases Draw.run_bind_eq_ok_iff.mp finished with ⟨selection, middle, selects, replies⟩
        cases replies
        exact .select selects
    | selectAssets targets =>
        rcases Draw.run_bind_eq_ok_iff.mp finished with ⟨selection, middle, selects, replies⟩
        cases replies
        exact .selectAssets selects
    | spend target change =>
        rcases Draw.run_bind_eq_ok_iff.mp finished with ⟨spending, middle, spends, replies⟩
        rcases Draw.run_bind_eq_ok_iff.mp spends with ⟨selection, last, selects, settles⟩
        cases settles
        cases replies
        exact .spend selects
  · intro performs
    cases performs with
    | add utxos => rfl
    | drop position => rfl
    | useOptions options => rfl
    | useFilter filter => rfl
    | select selects => exact Draw.run_bind_of_ok selects _
    | selectAssets selects => exact Draw.run_bind_of_ok selects _
    | @spend target later change selection selects =>
        have spends : (wallet.spend source target change).run drawn =
            (.ok (selection, wallet.settle selection change), later) :=
          Draw.run_bind_of_ok selects _
        exact Draw.run_bind_of_ok spends _

/-- The entry of a command accounts for what it does. -/
theorem Performs.accounts (performs : wallet.Performs source drawn command reply after later) :
    (wallet.entry command reply).Accounts wallet.pool after.pool := by
  cases performs with
  | add utxos => exact .of_perm (by simp [entry, Wallet.add, Ledger.incoming, Ledger.outgoing]) rfl
  | drop position =>
      refine .of_perm ?_ rfl
      simpa [entry, Ledger.incoming, Ledger.outgoing] using wallet.drop_perm position
  | useOptions options => exact .unchanged _
  | useFilter filter => exact .unchanged _
  | select selects => exact .unchanged _
  | selectAssets selects => exact .unchanged _
  | @spend target later change selection selects =>
      have balanced := balanced_of_selects selects
      have settled := wallet.settle_perm selection change
      constructor
      · have fewer := (selected_sublist_removed balanced.sublist).append_left
          (wallet.settle selection change).pool
        simpa [entry, Ledger.incoming, Ledger.outgoing] using
          fewer.subperm.trans settled.subperm
      · intro distinct
        rw [List.map_append, List.nodup_append] at distinct
        rw [removed_eq balanced.sublist distinct.1] at settled
        simpa [entry, Ledger.incoming, Ledger.outgoing] using settled
      · exact balanced.totalAmount_selected change

/-- Only a spending that selects outputs is answered with them, and it settles
them. -/
theorem Performs.settles {target : Nat} {change : Option OutPoint} {selection : Selection}
    (performs : wallet.Performs source drawn (.spend target change) (.selected selection) after
      later) :
    (wallet.select source target).run drawn = (.ok selection, later) ∧
      after = wallet.settle selection change := by
  cases performs with
  | spend selects => exact ⟨selects, rfl⟩

/-- Filter and options are set by commands of their own, and by no other. -/
theorem Performs.frame (performs : wallet.Performs source drawn command reply after later) :
    ((∀ filter, command ≠ .useFilter filter) → after.filter = wallet.filter) ∧
      ((∀ options, command ≠ .useOptions options) → after.options = wallet.options) := by
  constructor
  · intro others
    cases performs with
    | useFilter filter => exact (others filter rfl).elim
    | _ => rfl
  · intro others
    cases performs with
    | useOptions options => exact (others options rfl).elim
    | _ => rfl

end Wallet

/-! ## Sessions -/

namespace Session

variable {source : RandomSource} {session : Session} {command : Command}

/-- A command succeeds with one of its effects, or it fails and leaves the
wallet as it was. -/
theorem step_cases (source : RandomSource) (session : Session) (command : Command) :
    (∃ reply next, session.step source command = (.ok reply, next) ∧
      session.wallet.Performs source session.drawn command reply next.wallet next.drawn) ∨
    ∃ failure drawn, session.step source command = (.error failure, { session with drawn }) := by
  rw [step]
  cases finished : (session.wallet.perform source command).run session.drawn with
  | mk outcome later =>
      cases outcome with
      | error failure => exact .inr ⟨failure, later, rfl⟩
      | ok result =>
          rcases result with ⟨reply, after⟩
          exact .inl ⟨reply, _, rfl, Wallet.run_perform_eq_ok_iff.mp finished⟩

/-- A command that fails sets nothing at all. -/
theorem step_frame (source : RandomSource) (session : Session) (command : Command) :
    ((∀ filter, command ≠ .useFilter filter) →
        (session.step source command).2.wallet.filter = session.wallet.filter) ∧
      ((∀ options, command ≠ .useOptions options) →
        (session.step source command).2.wallet.options = session.wallet.options) := by
  rcases step_cases source session command with
    ⟨reply, next, step_eq, performs⟩ | ⟨failure, drawn, step_eq⟩
  · rw [step_eq]
    exact performs.frame
  · rw [step_eq]
    exact ⟨fun _ => rfl, fun _ => rfl⟩

/-- What a command does to the pool, whether it succeeds or fails. -/
def entry (source : RandomSource) (session : Session) (command : Command) : Ledger :=
  match (session.step source command).1 with
  | .ok reply => session.wallet.entry command reply
  | .error _ => {}

/-- What commands do to the pool, one after another. -/
def ledger (source : RandomSource) (session : Session) : List Command → Ledger
  | [] => {}
  | command :: rest =>
      session.entry source command ++ (session.step source command).2.ledger source rest

theorem entry_accounts (source : RandomSource) (session : Session) (command : Command) :
    (session.entry source command).Accounts session.wallet.pool
      (session.step source command).2.wallet.pool := by
  rw [entry]
  rcases step_cases source session command with
    ⟨reply, next, step_eq, performs⟩ | ⟨failure, drawn, step_eq⟩
  · rw [step_eq]
    exact performs.accounts
  · rw [step_eq]
    exact .unchanged _

/-- The ledger of a session accounts for the way of its pool. -/
theorem ledger_accounts (source : RandomSource) (session : Session) (commands : List Command) :
    (session.ledger source commands).Accounts session.wallet.pool
      (session.run source commands).2.wallet.pool := by
  induction commands generalizing session with
  | nil => exact .unchanged _
  | cons command rest ih => exact (entry_accounts source session command).append (ih _)

/-- A spending that is answered funds its target from the pool.  Nothing else
leaves the pool than the outputs with a selected outpoint, nothing else comes in
than the change, and filter and options stay. -/
theorem step_spend {target : Nat} {change : Option OutPoint} {selection : Selection}
    {next : Session}
    (answered : session.step source (.spend target change) = (.ok (.selected selection), next)) :
    (0 < target → Funds target (session.wallet.pool.filter session.wallet.filter.admits)
      (session.wallet.options.passFees session.wallet.filter) session.wallet.options selection) ∧
    (∀ utxo, utxo ∈ next.wallet.pool ↔
      (utxo ∈ session.wallet.pool ∧ utxo.outpoint ∉ selection.selected.map Utxo.outpoint) ∨
        utxo ∈ selection.changeOutputs change) ∧
    next.wallet.filter = session.wallet.filter ∧
    next.wallet.options = session.wallet.options := by
  rcases step_cases source session (.spend target change) with
    ⟨reply, last, step_eq, performs⟩ | ⟨failure, drawn, step_eq⟩
  · rw [answered, Prod.mk.injEq, Except.ok.injEq] at step_eq
    rcases step_eq with ⟨rfl, rfl⟩
    rcases performs.settles with ⟨selects, wallet_eq⟩
    rw [wallet_eq]
    refine ⟨?_, fun _ => Wallet.mem_pool_settle_iff, rfl, rfl⟩
    intro positive
    exact (answered_of_selects positive selects).funds
  · rw [answered] at step_eq
    cases step_eq

/-! ### Laws of a session -/

section Run

variable (source : RandomSource) (session : Session) (commands : List Command)

/-- Where the outputs of the pool and all that come into it have distinct
outpoints, no outpoint is spent twice, and no output with a spent one is left. -/
theorem run_spends_once
    (distinct : ((session.wallet.pool ++ (session.ledger source commands).incoming).map
      Utxo.outpoint).Nodup) :
    ((session.ledger source commands).spent.map Utxo.outpoint).Nodup ∧
      ((session.run source commands).2.wallet.pool.map Utxo.outpoint).Nodup ∧
      ∀ utxo ∈ (session.ledger source commands).spent,
        utxo.outpoint ∉ (session.run source commands).2.wallet.pool.map Utxo.outpoint :=
  (ledger_accounts source session commands).outpoints_nodup distinct

/-- Whatever the outpoints are, what is left, dropped and paid has been in the
pool at the start or was added. -/
theorem run_totalAmount_le :
    totalAmount (session.run source commands).2.wallet.pool +
        totalAmount (session.ledger source commands).dropped +
        (session.ledger source commands).paid + (session.ledger source commands).fees ≤
      totalAmount session.wallet.pool + totalAmount (session.ledger source commands).added :=
  (ledger_accounts source session commands).totalAmount_le

/-- With distinct outpoints the two sides are equal: the session keeps, drops or
pays every satoshi that it has had. -/
theorem run_totalAmount_eq
    (distinct : ((session.wallet.pool ++ (session.ledger source commands).incoming).map
      Utxo.outpoint).Nodup) :
    totalAmount (session.run source commands).2.wallet.pool +
        totalAmount (session.ledger source commands).dropped +
        (session.ledger source commands).paid + (session.ledger source commands).fees =
      totalAmount session.wallet.pool + totalAmount (session.ledger source commands).added :=
  (ledger_accounts source session commands).totalAmount_eq distinct

/-- Filter and options stay as they are unless a command sets them. -/
theorem run_frame :
    ((∀ filter, Command.useFilter filter ∉ commands) →
        (session.run source commands).2.wallet.filter = session.wallet.filter) ∧
      ((∀ options, Command.useOptions options ∉ commands) →
        (session.run source commands).2.wallet.options = session.wallet.options) := by
  induction commands generalizing session with
  | nil => exact ⟨fun _ => rfl, fun _ => rfl⟩
  | cons command rest ih =>
      rcases ih (session.step source command).2 with ⟨filter_eq, options_eq⟩
      rcases step_frame source session command with ⟨stepFilter_eq, stepOptions_eq⟩
      simp only [List.mem_cons, not_or]
      constructor
      · intro others
        exact (filter_eq fun filter => (others filter).2).trans
          (stepFilter_eq fun filter => Ne.symm (others filter).1)
      · intro others
        exact (options_eq fun options => (others options).2).trans
          (stepOptions_eq fun options => Ne.symm (others options).1)

end Run

end Session

end CoinSelection
