import CoinSelection.Proofs.Lists
import CoinSelection.Proofs.MultiAsset.Passes

/-!
# Funding several assets

The totals of a selection are gathered pass by pass.  Its outputs are gathered
differently: the pool is searched once more for the outpoints that were chosen.
Where outpoints are distinct the two agree, as the passes choose outputs of
different assets.
-/

namespace CoinSelection

open Checked Outcome

/-! ## Outputs pass by pass -/

/-- The outputs of the pool that some pass chose. -/
def gathered (pool : List Utxo) (passes : List AssetPass) : List Utxo :=
  pool.filter fun utxo => (AssetTotals.ofPasses passes).chosen.contains utxo.outpoint

/-- Passes for distinct assets that account for their selections, over a pool
that does not repeat an outpoint. -/
structure Settled (pool : List Utxo) (filter : Filter) (options : Options)
    (passes : List AssetPass) : Prop where
  outpoints : (pool.map Utxo.outpoint).Nodup
  assets : (passes.map AssetPass.asset).Nodup
  accounts : ∀ pass ∈ passes, pass.Accounts pool filter options

namespace Settled

variable {pool : List Utxo} {filter : Filter} {options : Options} {feeAsset asset : AssetId}
  {passes : List AssetPass} {pass : AssetPass} {utxo : Utxo}

/-- An output is gathered if a pass selected it: no other output has its
outpoint. -/
theorem mem_gathered_iff (settled : Settled pool filter options passes) :
    utxo ∈ gathered pool passes ↔ ∃ pass ∈ passes, utxo ∈ pass.selection.selected := by
  simp only [gathered, AssetTotals.ofPasses, List.mem_filter, List.contains_iff_mem,
    List.mem_flatMap, List.mem_map]
  constructor
  · rintro ⟨member, pass, passMember, other, otherMember, same⟩
    have otherPool := (settled.accounts pass passMember).sublist.subset otherMember
    obtain rfl := List.inj_on_of_nodup_map settled.outpoints otherPool member same
    exact ⟨pass, passMember, otherMember⟩
  · rintro ⟨pass, passMember, member⟩
    have poolMember := (settled.accounts pass passMember).sublist.subset member
    exact ⟨poolMember, pass, passMember, utxo, member, rfl⟩

/-- The gathered outputs that carry an asset were selected by its pass. -/
theorem exists_pass (settled : Settled pool filter options passes)
    (member : utxo ∈ carrying asset (gathered pool passes)) :
    ∃ pass ∈ passes, pass.asset = asset ∧ utxo ∈ pass.selection.selected := by
  obtain ⟨member, carries⟩ := mem_carrying_iff.mp member
  obtain ⟨pass, passMember, selected⟩ := settled.mem_gathered_iff.mp member
  have passCarries := (settled.accounts pass passMember).asset_eq selected
  exact ⟨pass, passMember, Option.some.inj (passCarries.symm.trans carries), selected⟩

/-- The gathered outputs that carry the asset of a pass are those that the pass
selected, in the same order. -/
theorem carrying_gathered (settled : Settled pool filter options passes)
    (passMember : pass ∈ passes) :
    carrying pass.asset (gathered pool passes) = pass.selection.selected := by
  have accounts := settled.accounts pass passMember
  have selected_iff : ∀ utxo, utxo ∈ carrying pass.asset (gathered pool passes) ↔
      utxo ∈ pass.selection.selected := by
    intro utxo
    constructor
    · intro member
      obtain ⟨other, otherMember, sameAsset, selected⟩ := settled.exists_pass member
      rwa [List.inj_on_of_nodup_map settled.assets otherMember passMember sameAsset] at selected
    · intro selected
      have member := settled.mem_gathered_iff.mpr ⟨pass, passMember, selected⟩
      exact mem_carrying_iff.mpr ⟨member, accounts.asset_eq selected⟩
  rw [carrying, gathered, List.filter_filter] at selected_iff ⊢
  apply filter_eq_of_sublist accounts.sublist (.of_map _ settled.outpoints)
  intro utxo poolMember
  rw [← selected_iff utxo, List.mem_filter, and_iff_right poolMember]

theorem totalAmount_carrying (settled : Settled pool filter options passes)
    (passMember : pass ∈ passes) :
    totalAmount (carrying pass.asset (gathered pool passes)) = pass.selection.selectedValue := by
  rw [settled.carrying_gathered passMember, (settled.accounts pass passMember).selectedValue_eq]

/-! ### Fees -/

/-- Only the pass for the asset that fees are paid in adds input fees. -/
theorem inputFees_eq (settled : Settled pool filter options passes)
    (paysIn : options.feeAsset = some pass.asset) (passMember : pass ∈ passes) :
    (AssetTotals.ofPasses passes).inputFees = pass.selection.inputFees := by
  have others : ∀ other, other ≠ pass → other ∈ passes → other.selection.inputFees = 0 := by
    intro other different member
    refine (settled.accounts other member).inputFees_of_otherAsset paysIn fun same => different ?_
    exact List.inj_on_of_nodup_map settled.assets member passMember same
  have once : passes.count pass = 1 :=
    List.count_eq_one_of_mem (.of_map _ settled.assets) passMember
  rw [AssetTotals.ofPasses, List.sum_map_eq_nsmul_single pass _ others, once, one_nsmul]

/-- Without a pass for the asset that fees are paid in there are no input
fees. -/
theorem inputFees_of_absent (settled : Settled pool filter options passes)
    (paysIn : options.feeAsset = some feeAsset)
    (absent : feeAsset ∉ passes.map AssetPass.asset) :
    (AssetTotals.ofPasses passes).inputFees = 0 := by
  refine List.sum_eq_zero fun inputFees member => ?_
  obtain ⟨pass, passMember, rfl⟩ := List.mem_map.mp member
  refine (settled.accounts pass passMember).inputFees_of_otherAsset paysIn ?_
  rintro rfl
  exact absent (List.mem_map_of_mem passMember)

/-- The input fees are those of the gathered outputs of the asset that fees are
paid in, at the rates of the options. -/
theorem inputFees_gathered (settled : Settled pool filter options passes)
    (paysIn : options.feeAsset = some feeAsset) :
    (AssetTotals.ofPasses passes).inputFees =
      ((carrying feeAsset (gathered pool passes)).map
        (options.fees true).effective.exactInputFee).sum := by
  by_cases present : feeAsset ∈ passes.map AssetPass.asset
  · obtain ⟨pass, passMember, rfl⟩ := List.mem_map.mp present
    rw [settled.inputFees_eq paysIn passMember, settled.carrying_gathered passMember,
      (settled.accounts pass passMember).inputFees_eq, AssetPass.fees_of_feeAsset paysIn]
  · have nothing : carrying feeAsset (gathered pool passes) = [] := by
      refine List.eq_nil_iff_forall_not_mem.mpr fun utxo member => present ?_
      obtain ⟨pass, passMember, rfl, _⟩ := settled.exists_pass member
      exact List.mem_map_of_mem passMember
    rw [settled.inputFees_of_absent paysIn present, nothing]
    rfl

end Settled

/-! ## Funding each asset -/

/-- A selection pays every target from outputs of its asset, and the fees from
outputs of the asset that they are paid in. -/
structure FundsEach (targets : ByAsset) (pool : List Utxo) (filter : Filter) (options : Options)
    (feeAsset : AssetId) (selection : AssetSelection) : Prop where
  /-- The outputs are those of the pool in their order, none of them twice. -/
  sublist : selection.selected.Sublist pool
  accepted : ∀ utxo ∈ selection.selected, ∃ asset ∈ targets.map Prod.fst,
    utxo.asset = some asset ∧ (filter.only asset).accepts utxo = .ok true
  /-- The filter itself also accepts the outputs of the asset that it is for. -/
  acceptedItself : ∀ utxo ∈ selection.selected, filter.acceptsAsset utxo = true →
    filter.accepts utxo = .ok true
  selectedValue_assets : selection.selectedValue.map Prod.fst = targets.map Prod.fst
  excessValue_assets : selection.excessValue.map Prod.fst = targets.map Prod.fst
  /-- The excess is the difference itself, not a saturated one. -/
  pays : ∀ asset target, targets.get? asset = some target → ∃ excessValue,
    selection.selectedValue.get? asset =
        some (totalAmount (carrying asset selection.selected)) ∧
      selection.excessValue.get? asset = some excessValue ∧
        target + excessValue = totalAmount (carrying asset selection.selected)
  priced : ∀ utxo ∈ carrying feeAsset selection.selected,
    (options.fees true).effective.inputFee utxo =
      .ok ((options.fees true).effective.exactInputFee utxo)
  inputFees_eq :
    selection.inputFees =
      ((carrying feeAsset selection.selected).map
        (options.fees true).effective.exactInputFee).sum
  free : feeAsset ∉ targets.map Prod.fst → selection.inputFees = 0
  paysFees : ∀ target, targets.get? feeAsset = some target → 0 < target → ∃ notInputFees,
    (options.fees true).notInputFees options = .ok notInputFees ∧
      target + notInputFees + selection.inputFees ≤
        totalAmount (carrying feeAsset selection.selected)

section FundsEach

variable {source : RandomSource} {targets : ByAsset} {pool : List Utxo} {filter : Filter}
  {options : Options} {feeAsset : AssetId} {passes : List AssetPass}

/-- The selection that some passes lead to. -/
def AssetSelection.ofPasses (pool : List Utxo) (passes : List AssetPass) : AssetSelection where
  selected := gathered pool passes
  selectedValue := (AssetTotals.ofPasses passes).selectedValue
  excessValue := (AssetTotals.ofPasses passes).excessValue
  inputFees := (AssetTotals.ofPasses passes).inputFees

@[simp]
theorem AssetSelection.ofPasses_selected (pool : List Utxo) (passes : List AssetPass) :
    (ofPasses pool passes).selected = gathered pool passes :=
  rfl

@[simp]
theorem AssetSelection.ofPasses_inputFees (pool : List Utxo) (passes : List AssetPass) :
    (ofPasses pool passes).inputFees = (AssetTotals.ofPasses passes).inputFees :=
  rfl

/-- Settled passes fund their targets together. -/
theorem Settled.fundsEach (settled : Settled pool filter options passes)
    (paysIn : options.feeAsset = some feeAsset) :
    FundsEach (AssetPass.byAsset AssetPass.target passes) pool filter options feeAsset
      (.ofPasses pool passes) where
  sublist := List.filter_sublist
  accepted utxo member := by
    obtain ⟨pass, passMember, selected⟩ := settled.mem_gathered_iff.mp member
    have accounts := settled.accounts pass passMember
    refine ⟨pass.asset, ?_, accounts.asset_eq selected, accounts.accepted utxo selected⟩
    rw [AssetPass.assets_byAsset]
    exact List.mem_map_of_mem passMember
  acceptedItself utxo member allowed := by
    obtain ⟨pass, passMember, selected⟩ := settled.mem_gathered_iff.mp member
    have accounts := settled.accounts pass passMember
    rw [← Filter.accepts_only (accounts.asset_eq selected) allowed]
    exact accounts.accepted utxo selected
  selectedValue_assets := by
    rw [AssetPass.assets_byAsset]
    exact AssetPass.assets_byAsset _ passes
  excessValue_assets := by
    rw [AssetPass.assets_byAsset]
    exact AssetPass.assets_byAsset _ passes
  pays asset target found := by
    obtain ⟨pass, passMember, rfl, rfl⟩ :=
      (AssetPass.get?_byAsset_eq_some_iff settled.assets).mp found
    have listed (value : AssetPass → Nat) :
        (AssetPass.byAsset value passes).get? pass.asset = some (value pass) :=
      (AssetPass.get?_byAsset_eq_some_iff settled.assets).mpr ⟨pass, passMember, rfl, rfl⟩
    rw [AssetSelection.ofPasses_selected, settled.totalAmount_carrying passMember]
    exact ⟨pass.selection.excessValue, listed _, listed _,
      (settled.accounts pass passMember).excessValue_eq⟩
  priced utxo member := by
    obtain ⟨pass, passMember, rfl, selected⟩ := settled.exists_pass member
    rw [← AssetPass.fees_of_feeAsset paysIn]
    exact (settled.accounts pass passMember).priced utxo selected
  inputFees_eq := settled.inputFees_gathered paysIn
  free absent := by
    rw [AssetPass.assets_byAsset] at absent
    exact settled.inputFees_of_absent paysIn absent
  paysFees target found positive := by
    obtain ⟨pass, passMember, rfl, rfl⟩ :=
      (AssetPass.get?_byAsset_eq_some_iff settled.assets).mp found
    rw [AssetSelection.ofPasses_selected, settled.totalAmount_carrying passMember,
      AssetSelection.ofPasses_inputFees, settled.inputFees_eq paysIn passMember,
      ← AssetPass.fees_of_feeAsset paysIn]
    exact (settled.accounts pass passMember).pays positive

/-- Where outpoints are distinct, a selection for several assets funds each of
them, whatever the source draws. -/
theorem selectAssets_funds_each (ordered : targets.Ordered)
    (distinct : (pool.map Utxo.outpoint).Nodup) (paysIn : options.feeAsset = some feeAsset)
    {drawn later : Nat} {selection : AssetSelection}
    (finished : (selectAssets source targets pool filter options).run drawn =
      (.ok selection, later)) :
    FundsEach targets pool filter options feeAsset selection := by
  obtain ⟨totals, middle, passed, collected⟩ := Draw.run_bind_eq_ok_iff.mp finished
  have started : (selectEach source pool filter options targets (.ofPasses [])).run drawn =
      (.ok totals, middle) := passed
  obtain ⟨passes, rfl, rfl, accounts⟩ := passes_of_selectEach started ordered
  obtain rfl := Except.ok.inj (Prod.mk.inj collected).1
  have assets : (passes.map AssetPass.asset).Nodup := by
    rw [← AssetPass.assets_byAsset AssetPass.target]
    exact ordered.nodup
  have settled : Settled pool filter options passes := ⟨distinct, assets, accounts⟩
  exact settled.fundsEach paysIn

end FundsEach

/-! ## Two requests in full -/

/-- An output of the asset that fees are paid in. -/
def feeOutput : Utxo :=
  { outpoint := ⟨⟨Vector.replicate 32 0⟩, 1⟩, amount := 600, asset := some (.ofByte 1) }

/-- The selection of that output alone. -/
def feeSelection : Selection where
  selected := [feeOutput]
  selectedValue := 600
  excessValue := 100
  inputFees := 41
  algorithm := .branchAndBound

/-- It is the only output of its asset, and pays five hundred and the fees
without change. -/
theorem select_feeOutput (source : RandomSource) (drawn : Nat) :
    (select source 500 [token, feeOutput] (Filter.only {} (.ofByte 1)) assetOptions).run drawn =
      (.ok feeSelection, drawn) := by
  have prepared : prepare 500 [feeOutput] (Filter.only {} (.ofByte 1)) assetOptions = .ok
      { candidates := [(assetOptions.fees true).candidate feeOutput 0]
        target := 511
        strategy := .branchAndBound 235 (.knapsack defaultMinimumChange) } := by
    decide +kernel
  have searched : BranchAndBound.select 235 [(assetOptions.fees true).candidate feeOutput 0] 511 =
      .ok [(assetOptions.fees true).candidate feeOutput 0] := by
    rw [BranchAndBound.select, BranchAndBound.search, Candidate.largestFirst_singleton]
    decide +kernel
  have totals : Selection.ofCandidates [(assetOptions.fees true).candidate feeOutput 0] 511
      .branchAndBound = .ok
        { selected := [feeOutput]
          selectedValue := 600
          excessValue := 89
          inputFees := 41
          algorithm := .branchAndBound } := by
    rw [Selection.ofCandidates, Selection.offeredOrder_singleton]
    decide +kernel
  exact select_run_of_found (by decide +kernel) (by decide +kernel) (by decide) prepared searched
    totals drawn

/-- One output pays each target. -/
theorem selectAssets_feeOutput_token (source : RandomSource) (drawn : Nat) :
    (selectAssets source [(.ofByte 1, 500), (.ofByte 2, 100)] [token, feeOutput] {}
        assetOptions).run drawn =
      (.ok
        { selected := [token, feeOutput]
          selectedValue := [(.ofByte 1, 600), (.ofByte 2, 150)]
          excessValue := [(.ofByte 1, 100), (.ofByte 2, 50)]
          inputFees := 41 },
        drawn) := by
  let feeTotals : AssetTotals :=
    { selectedValue := [(.ofByte 1, 600)]
      excessValue := [(.ofByte 1, 100)]
      inputFees := 41
      chosen := [feeOutput.outpoint] }
  let totals : AssetTotals :=
    { selectedValue := [(.ofByte 1, 600), (.ofByte 2, 150)]
      excessValue := [(.ofByte 1, 100), (.ofByte 2, 50)]
      inputFees := 41
      chosen := [feeOutput.outpoint, token.outpoint] }
  have tokenSelected : (select source 100 [token, feeOutput] (Filter.only {} (.ofByte 2))
      assetOptions).run drawn = (.ok tokenSelection, drawn) :=
    select_token source (by decide +kernel) drawn
  have feeAdded : AssetTotals.add {} (.ofByte 1) feeSelection = .ok feeTotals := by decide +kernel
  have tokenAdded : feeTotals.add (.ofByte 2) tokenSelection = .ok totals := by decide +kernel
  have passed : (selectEach source [token, feeOutput] {} assetOptions
      [(.ofByte 1, 500), (.ofByte 2, 100)] {}).run drawn = (.ok totals, drawn) := by
    rw [selectEach_run_cons _ (select_feeOutput source drawn) feeAdded,
      selectEach_run_cons _ tokenSelected tokenAdded]
    rfl
  have chosen : [token, feeOutput].filter (fun utxo => totals.chosen.contains utxo.outpoint) =
      [token, feeOutput] := by
    decide +kernel
  rw [selectAssets, Draw.run_bind_of_ok passed, Draw.run_pure, chosen]

theorem selectAssets_funds_each_feeOutput_token :
    ∃ selection,
      (selectAssets (fun _ => 0) (.ofList [(.ofByte 2, 100), (.ofByte 1, 500)])
          [token, feeOutput] {} assetOptions).run 0 = (.ok selection, 0) ∧
        FundsEach (.ofList [(.ofByte 2, 100), (.ofByte 1, 500)]) [token, feeOutput] {}
          assetOptions (.ofByte 1) selection := by
  have targets_eq : ByAsset.ofList [(.ofByte 2, 100), (.ofByte 1, 500)] =
      [(.ofByte 1, 500), (.ofByte 2, 100)] := by
    decide +kernel
  have finished := selectAssets_feeOutput_token (fun _ => 0) 0
  rw [← targets_eq] at finished
  exact ⟨_, finished,
    selectAssets_funds_each (ByAsset.ordered_ofList _) (by decide +kernel) rfl finished⟩

/-- The asset that the filter is for does not matter: the passes replace it. -/
theorem selectAssets_otherFilter :
    ∃ selection,
      (selectAssets (fun _ => 0) [(.ofByte 2, 100)] [token] { targetAsset := some (.ofByte 3) }
          assetOptions).run 0 = (.ok selection, 0) ∧
        token ∈ selection.selected ∧
          Filter.accepts { targetAsset := some (.ofByte 3) } token = .ok false := by
  let totals : AssetTotals :=
    { selectedValue := [(.ofByte 2, 150)]
      excessValue := [(.ofByte 2, 50)]
      chosen := [token.outpoint] }
  have selected : (select (fun _ => 0) 100 [token]
      (Filter.only { targetAsset := some (.ofByte 3) } (.ofByte 2)) assetOptions).run 0 =
        (.ok tokenSelection, 0) :=
    select_token (fun _ => 0) (by decide +kernel) 0
  have added : AssetTotals.add {} (.ofByte 2) tokenSelection = .ok totals := by decide +kernel
  have passed : (selectEach (fun _ => 0) [token] { targetAsset := some (.ofByte 3) } assetOptions
      [(.ofByte 2, 100)] {}).run 0 = (.ok totals, 0) := by
    rw [selectEach_run_cons _ selected added]
    rfl
  refine ⟨_, Draw.run_bind_of_ok passed _, ?_, ?_⟩
  · decide +kernel
  · decide +kernel

end CoinSelection
