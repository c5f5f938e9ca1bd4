import CoinSelection.Proofs.ByAsset
import CoinSelection.Proofs.FeeAsset

/-!
# The passes of a selection for several assets

Every asset is paid by a pass of its own, at rates of its own.  A pass that
selects accounts for outputs of its asset, also for a target of zero, and the
totals of a selection are those of its passes one after another.
-/

namespace CoinSelection

open Checked Outcome

/-! ## Outputs of one asset -/

/-- The filter with its asset replaced. -/
def Filter.only (filter : Filter) (asset : AssetId) : Filter :=
  { filter with targetAsset := some asset }

/-- The outputs that carry an asset. -/
def carrying (asset : AssetId) (utxos : List Utxo) : List Utxo :=
  utxos.filter fun utxo => utxo.asset = some asset

section OneAsset

variable {filter : Filter} {asset : AssetId} {utxo : Utxo} {utxos : List Utxo}

theorem mem_carrying_iff :
    utxo ∈ carrying asset utxos ↔ utxo ∈ utxos ∧ utxo.asset = some asset := by
  simp [carrying]

theorem Filter.asset_of_accepts_only (accepts : (filter.only asset).accepts utxo = .ok true) :
    utxo.asset = some asset := by
  by_cases carries : utxo.asset = some asset
  · exact carries
  · simp [Filter.accepts, acceptsAsset, only, carries] at accepts

/-- Replacing the asset does not matter for an output that carries it and has
the asset that the filter was for. -/
theorem Filter.accepts_only (carries : utxo.asset = some asset)
    (allowed : filter.acceptsAsset utxo = true) :
    (filter.only asset).accepts utxo = filter.accepts utxo := by
  have allowedOnly : (filter.only asset).acceptsAsset utxo = true := by
    simp [acceptsAsset, only, carries]
  rw [Filter.accepts, if_pos allowedOnly, Filter.accepts, if_pos allowed]
  rfl

end OneAsset

/-! ## Passes -/

/-- What was asked for in one asset, and what was selected. -/
structure AssetPass where
  asset : AssetId
  target : Nat
  selection : Selection
  deriving DecidableEq

namespace AssetPass

/-- A value for each pass, by its asset. -/
def byAsset (value : AssetPass → Nat) (passes : List AssetPass) : ByAsset :=
  passes.map fun pass => (pass.asset, value pass)

theorem assets_byAsset (value : AssetPass → Nat) (passes : List AssetPass) :
    (byAsset value passes).map Prod.fst = passes.map asset :=
  List.map_map

theorem byAsset_append (value : AssetPass → Nat) (passes : List AssetPass) (pass : AssetPass) :
    byAsset value (passes ++ [pass]) = byAsset value passes ++ [(pass.asset, value pass)] :=
  List.map_append

/-- The value for an asset is that for its pass. -/
theorem get?_byAsset_eq_some_iff {value : AssetPass → Nat} {passes : List AssetPass}
    (distinct : (passes.map asset).Nodup) {asset : AssetId} {found : Nat} :
    (byAsset value passes).get? asset = some found ↔
      ∃ pass ∈ passes, pass.asset = asset ∧ value pass = found := by
  rw [ByAsset.get?_eq_some_iff (assets_byAsset value passes ▸ distinct), byAsset, List.mem_map]
  simp only [Prod.mk.injEq]

/-! ### Accounts -/

/-- The calculators of a pass, given the filter for all of them. -/
def fees (options : Options) (filter : Filter) (pass : AssetPass) : Fees :=
  options.passFees (filter.only pass.asset)

/-- A pass accounts for accepted outputs of its asset, and pays its target and
its fees. -/
structure Accounts (pool : List Utxo) (filter : Filter) (options : Options) (pass : AssetPass) :
    Prop where
  sublist : pass.selection.selected.Sublist pool
  accepted : ∀ utxo ∈ pass.selection.selected,
    (filter.only pass.asset).accepts utxo = .ok true
  priced : ∀ utxo ∈ pass.selection.selected,
    (pass.fees options filter).effective.inputFee utxo =
      .ok ((pass.fees options filter).effective.exactInputFee utxo)
  selectedValue_eq : pass.selection.selectedValue = totalAmount pass.selection.selected
  excessValue_eq : pass.target + pass.selection.excessValue = pass.selection.selectedValue
  inputFees_eq :
    pass.selection.inputFees =
      (pass.selection.selected.map (pass.fees options filter).effective.exactInputFee).sum
  pays : 0 < pass.target → ∃ notInputFees,
    (pass.fees options filter).notInputFees options = .ok notInputFees ∧
      pass.target + notInputFees + pass.selection.inputFees ≤ pass.selection.selectedValue

variable {source : RandomSource} {pool : List Utxo} {filter : Filter} {options : Options}
  {feeAsset : AssetId} {pass : AssetPass} {utxo : Utxo}

theorem fees_of_feeAsset (paysIn : options.feeAsset = some pass.asset) :
    pass.fees options filter = options.fees true :=
  Options.passFees_of_feeAsset paysIn rfl

theorem fees_of_otherAsset (paysIn : options.feeAsset = some feeAsset)
    (other : pass.asset ≠ feeAsset) : pass.fees options filter = options.fees false :=
  Options.passFees_of_otherAsset paysIn rfl other

/-- A pass that selects accounts for its selection, also for a target of
zero. -/
theorem accounts_of_selects {drawn later : Nat}
    (finished : (select source pass.target pool (filter.only pass.asset) options).run drawn =
      (.ok pass.selection, later)) :
    pass.Accounts pool filter options := by
  have accepts := accepted_of_selects finished
  rcases Nat.eq_zero_or_pos pass.target with zero | positive
  · rw [zero, select_run_of_zero (validate_of_selects finished) accepts, Prod.mk.injEq] at finished
    have nothing : pass.selection = .empty := (Except.ok.inj finished.1).symm
    constructor <;> simp [nothing, zero, Selection.empty, totalAmount]
  · have funds := (answered_of_selects positive finished).funds
    obtain ⟨notInputFees, notInputFees_eq, pays, _⟩ := funds.pays
    exact {
      sublist := funds.sublist.trans List.filter_sublist
      accepted := fun utxo member => by
        obtain ⟨poolMember, admits⟩ := List.mem_filter.mp (funds.sublist.subset member)
        have counts := (Filter.accepted_eq_ok_iff.mp accepts).1 utxo poolMember
        exact Filter.accepts_eq_ok_iff.mpr ⟨counts, admits.symm⟩
      priced := fun utxo member => (funds.worthwhile utxo member).1
      selectedValue_eq := funds.selectedValue_eq
      excessValue_eq := funds.excessValue_eq
      inputFees_eq := funds.inputFees_eq
      pays := fun _ => ⟨notInputFees, notInputFees_eq, pays⟩ }

theorem Accounts.asset_eq (accounts : pass.Accounts pool filter options)
    (member : utxo ∈ pass.selection.selected) : utxo.asset = some pass.asset :=
  Filter.asset_of_accepts_only (accounts.accepted utxo member)

/-- The pass for another asset than the one that fees are paid in has no input
fees. -/
theorem Accounts.inputFees_of_otherAsset (accounts : pass.Accounts pool filter options)
    (paysIn : options.feeAsset = some feeAsset) (other : pass.asset ≠ feeAsset) :
    pass.selection.inputFees = 0 := by
  rw [accounts.inputFees_eq, fees_of_otherAsset paysIn other, Options.effective_fees_false,
    FeeCalculator.sum_exactInputFee_free]

end AssetPass

/-! ## Totals pass by pass -/

deriving instance DecidableEq for AssetTotals

/-- The totals of some passes. -/
def AssetTotals.ofPasses (passes : List AssetPass) : AssetTotals where
  selectedValue := AssetPass.byAsset (fun pass => pass.selection.selectedValue) passes
  excessValue := AssetPass.byAsset (fun pass => pass.selection.excessValue) passes
  inputFees := (passes.map fun pass => pass.selection.inputFees).sum
  chosen := passes.flatMap fun pass => pass.selection.selected.map Utxo.outpoint

/-- One more pass, for an asset after all others, is added at the end. -/
theorem AssetTotals.add_ofPasses {done : List AssetPass} {pass : AssetPass} {next : AssetTotals}
    (last : ∀ earlier ∈ done, compare earlier.asset pass.asset = .lt)
    (added : (ofPasses done).add pass.asset pass.selection = .ok next) :
    next = ofPasses (done ++ [pass]) := by
  obtain ⟨inputFees, inputFees_eq, next_eq⟩ := bind_eq_ok_iff.mp added
  obtain ⟨_, rfl⟩ := add_eq_ok_iff.mp inputFees_eq
  obtain rfl := Except.ok.inj next_eq
  have insert_last (value : AssetPass → Nat) :
      (AssetPass.byAsset value done).insert pass.asset (value pass) =
        AssetPass.byAsset value (done ++ [pass]) := by
    have before : ∀ entry ∈ AssetPass.byAsset value done, compare entry.1 pass.asset = .lt :=
      List.forall_mem_map.mpr last
    rw [ByAsset.insert_eq_append before, AssetPass.byAsset_append]
  simp [ofPasses, insert_last fun pass => pass.selection.selectedValue,
    insert_last fun pass => pass.selection.excessValue]

section Each

variable {source : RandomSource} {pool : List Utxo} {filter : Filter} {options : Options}
  {totals : AssetTotals} {drawn later : Nat}

/-- A pass that selects leaves the remaining ones to the next totals. -/
theorem selectEach_run_cons {asset : AssetId} {target middle : Nat} {selection : Selection}
    {next : AssetTotals} (remaining : ByAsset)
    (selected : (select source target pool (filter.only asset) options).run drawn =
      (.ok selection, middle))
    (added : totals.add asset selection = .ok next) :
    (selectEach source pool filter options ((asset, target) :: remaining) totals).run drawn =
      (selectEach source pool filter options remaining next).run middle := by
  refine (Draw.run_bind_of_ok selected _).trans ?_
  rw [added, Draw.run_ofOutcome_ok_bind]

/-- The passes for the remaining targets follow those already made. -/
theorem passes_of_selectEach {remaining : ByAsset} {done : List AssetPass}
    (finished : (selectEach source pool filter options remaining (.ofPasses done)).run drawn =
      (.ok totals, later))
    (ordered : ByAsset.Ordered (AssetPass.byAsset AssetPass.target done ++ remaining)) :
    ∃ passes, AssetPass.byAsset AssetPass.target passes = remaining ∧
      totals = .ofPasses (done ++ passes) ∧
        ∀ pass ∈ passes, pass.Accounts pool filter options := by
  induction remaining generalizing done drawn with
  | nil =>
      cases finished
      exact ⟨[], rfl, by rw [List.append_nil], by simp⟩
  | cons entry rest ih =>
      obtain ⟨asset, target⟩ := entry
      obtain ⟨selection, middle, selected, continued⟩ := Draw.run_bind_eq_ok_iff.mp finished
      obtain ⟨next, after, added, continued⟩ := Draw.run_bind_eq_ok_iff.mp continued
      rw [Draw.run_ofOutcome, Prod.mk.injEq] at added
      obtain ⟨added, rfl⟩ := added
      let pass : AssetPass := ⟨asset, target, selection⟩
      have accounts : pass.Accounts pool filter options :=
        AssetPass.accounts_of_selects selected
      have last : ∀ earlier ∈ done, compare earlier.asset pass.asset = .lt := fun earlier member =>
        (List.pairwise_append.mp ordered).2.2 _ (List.mem_map_of_mem member) _ List.mem_cons_self
      obtain rfl := AssetTotals.add_ofPasses last added
      have orderedNext :
          ByAsset.Ordered (AssetPass.byAsset AssetPass.target (done ++ [pass]) ++ rest) := by
        rwa [AssetPass.byAsset_append, List.append_assoc]
      obtain ⟨passes, targets_eq, totals_eq, all⟩ := ih continued orderedNext
      refine ⟨pass :: passes, ?_, ?_, List.forall_mem_cons.mpr ⟨accounts, all⟩⟩
      · rw [← targets_eq]
        rfl
      · rw [totals_eq, List.append_assoc, List.singleton_append]

end Each

end CoinSelection
