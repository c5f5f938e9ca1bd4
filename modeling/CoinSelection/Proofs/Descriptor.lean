import CoinSelection.Proofs.Pricing
import Mathlib.Tactic.SplitIfs

/-!
# Weights from descriptors

A script that has been read asks for no more signatures than it has keys, and
its place bounds the number of its keys and their sizes.  So the weight of every
descriptor is small, and an output that takes its weight from one is priced
without overflow at every rate below a bound that no transaction comes near.
-/

namespace CoinSelection

open Checked

namespace Descriptor

/-! ## Scripts that have been read -/

/-- A script asks for no more signatures than it has keys. -/
def Script.Satisfiable : Script → Prop
  | .multi required forms => required ≤ forms.length
  | _ => True

theorem satisfiable_of_readMulti {number : Term} {keys : List Term} {script : Script}
    (read : readMulti number keys = some script) : script.Satisfiable := by
  rcases Option.bind_eq_some_iff.mp read with ⟨required, -, read⟩
  rcases Option.bind_eq_some_iff.mp read with ⟨forms, -, read⟩
  split at read
  · cases read
    assumption
  · cases read

theorem satisfiable_of_readScriptForm {place : Place} {term : Term} {script : Script}
    (read : readScriptForm place term = some script) : script.Satisfiable := by
  unfold readScriptForm at read
  split at read
  · rcases Option.map_eq_some_iff.mp read with ⟨form, -, rfl⟩
    trivial
  · rcases Option.map_eq_some_iff.mp read with ⟨form, -, rfl⟩
    trivial
  · exact satisfiable_of_readMulti read
  · split at read
    · cases read
    · exact satisfiable_of_readMulti read
  · cases read

/-- The greatest number of keys of a script in a place. -/
def Place.mostKeys : Place → Nat
  | .output => 3
  | .inputScript => 15
  | .witness => 20

/-- The greatest size of a key of a script in a place. -/
def Place.greatestPush : Place → Nat
  | .witness => KeyForm.pushSize .compressed
  | _ => KeyForm.pushSize .uncompressed

/-- The keys of a script that may stand in a place are few and small. -/
structure Place.Holds (place : Place) (script : Script) : Prop where
  satisfiable : script.Satisfiable
  length_le : script.forms.length ≤ place.mostKeys
  pushSize_le : ∀ form ∈ script.forms, form.pushSize ≤ place.greatestPush

/-- The limit on the size of a script in an input leaves room for fifteen
compressed keys. -/
theorem Script.length_forms_le_of_nominalSize (script : Script)
    (fits : script.nominalSize ≤ 520) : script.forms.length ≤ 15 := by
  cases script with
  | key form => simp [forms]
  | keyHash => simp [forms]
  | multi required forms =>
      have sum : (forms.map fun _ => KeyForm.pushSize .compressed).foldr (· + ·) 0 =
          34 * forms.length := by
        change (forms.map fun _ => KeyForm.pushSize .compressed).sum = _
        rw [List.map_const', List.sum_replicate_nat, Nat.mul_comm]
        rfl
      simp only [nominalSize, sizeWith, sum] at fits
      simp only [Script.forms]
      omega

theorem Place.length_forms_le {place : Place} {script : Script}
    (fits : place.fits script = true) : script.forms.length ≤ place.mostKeys := by
  cases place with
  | output => exact of_decide_eq_true fits
  | inputScript => exact script.length_forms_le_of_nominalSize (of_decide_eq_true fits)
  | witness => exact of_decide_eq_true fits

theorem Place.pushSize_le {place : Place} {form : KeyForm} (admits : place.admits form = true) :
    form.pushSize ≤ place.greatestPush := by
  cases place <;> cases form <;> first | decide | cases admits

/-- A script that has been read may stand in its place. -/
theorem holds_of_readScript {place : Place} {term : Term} {script : Script}
    (read : readScript place term = some script) : place.Holds script := by
  rcases Option.filter_eq_some_iff.mp read with ⟨read, accepts⟩
  rw [Place.accepts, Bool.and_eq_true, List.all_eq_true] at accepts
  constructor
  · exact satisfiable_of_readScriptForm read
  · exact Place.length_forms_le accepts.2
  · exact fun form member => Place.pushSize_le (accepts.1 form member)

/-! ## Sizes -/

theorem numberSize_mono {number other : Nat} (le : number ≤ other) :
    numberSize number ≤ numberSize other := by
  unfold numberSize
  split_ifs <;> omega

theorem sum_pushSizes_le {forms : List KeyForm} {bound : Nat}
    (each : ∀ form ∈ forms, form.pushSize ≤ bound) :
    (forms.map KeyForm.pushSize).foldr (· + ·) 0 ≤ bound * forms.length := by
  induction forms with
  | nil => exact Nat.zero_le _
  | cons form forms ih =>
      rcases List.forall_mem_cons.mp each with ⟨first, others⟩
      have rest := ih others
      rw [List.map_cons, List.foldr_cons, List.length_cons, Nat.mul_succ]
      omega

namespace Place.Holds

variable {place : Place} {script : Script}

theorem size_le (holds : place.Holds script) :
    script.size ≤
      2 * numberSize place.mostKeys + place.greatestPush * place.mostKeys + 1 := by
  have length_le := holds.length_le
  have pushSize_le := holds.pushSize_le
  cases script with
  | key form =>
      have push := pushSize_le form List.mem_cons_self
      change form.pushSize + 1 ≤ _
      cases place <;> simp only [greatestPush, mostKeys, KeyForm.pushSize] at * <;> omega
  | keyHash =>
      change 25 ≤ _
      cases place <;> decide
  | multi required forms =>
      have number_le : numberSize required ≤ numberSize place.mostKeys :=
        numberSize_mono (holds.satisfiable.trans length_le)
      have count_le : numberSize forms.length ≤ numberSize place.mostKeys :=
        numberSize_mono length_le
      have keys_le : (forms.map KeyForm.pushSize).foldr (· + ·) 0 ≤
          place.greatestPush * place.mostKeys :=
        (sum_pushSizes_le pushSize_le).trans (Nat.mul_le_mul_left _ length_le)
      change numberSize required + (forms.map KeyForm.pushSize).foldr (· + ·) 0 +
        numberSize forms.length + 1 ≤ _
      omega

theorem satisfactionSize_le (holds : place.Holds script) :
    script.satisfactionSize ≤ 1 + signatureSize * place.mostKeys := by
  cases script with
  | key form =>
      change signatureSize ≤ _
      cases place <;> decide
  | keyHash =>
      change signatureSize + KeyForm.pushSize .compressed ≤ _
      cases place <;> decide
  | multi required forms =>
      have required_le : required ≤ place.mostKeys := holds.satisfiable.trans holds.length_le
      exact Nat.add_le_add_left (Nat.mul_le_mul_left signatureSize required_le) 1

end Place.Holds

/-! ## Weights -/

theorem compactSizeLength_le {count : Nat} (small : count ≤ 0xFFFF) :
    compactSizeLength count ≤ 3 := by
  unfold compactSizeLength
  split_ifs <;> omega

theorem pushOverhead_le (size : Nat) : pushOverhead size ≤ 3 := by
  unfold pushOverhead
  split_ifs <;> omega

theorem inputScriptWeight_le {size bound : Nat} (size_le : size ≤ bound)
    (small : bound ≤ 0xFFFF) : inputScriptWeight size ≤ 4 * (3 + bound) := by
  have length_le := compactSizeLength_le (size_le.trans small)
  unfold inputScriptWeight
  omega

/-- The greatest weight of the data that satisfies a descriptor: fifteen
signatures, and a script with fifteen keys that are not compressed. -/
def greatestWeight : Nat := 8380

theorem satisfactionWeight_le_of_scriptHash {script : Script}
    (holds : Place.inputScript.Holds script) :
    (Descriptor.scriptHash script).satisfactionWeight ≤ greatestWeight := by
  have overhead_le := pushOverhead_le script.size
  have size_le : script.size ≤ 993 := holds.size_le
  have data_le : script.satisfactionSize ≤ 1096 := holds.satisfactionSize_le
  have bytes_le : pushOverhead script.size + script.size + script.satisfactionSize ≤ 2092 := by
    omega
  exact inputScriptWeight_le bytes_le (by decide)

theorem witnessScriptWeight_le {script : Script} (holds : Place.witness.Holds script) :
    witnessScriptWeight script ≤ 2154 := by
  have size_le : script.size ≤ 685 := holds.size_le
  have data_le : script.satisfactionSize ≤ 1461 := holds.satisfactionSize_le
  have length_le : compactSizeLength script.size ≤ 3 := compactSizeLength_le (by omega)
  unfold witnessScriptWeight
  omega

theorem satisfactionWeight_le_of_readScriptHash {term : Term} {descriptor : Descriptor}
    (read : readScriptHash term = some descriptor) :
    descriptor.satisfactionWeight ≤ greatestWeight := by
  unfold readScriptHash at read
  split at read
  · split at read
    · cases read
      decide
    · cases read
  · rcases Option.map_eq_some_iff.mp read with ⟨script, reads, rfl⟩
    have weight_le := witnessScriptWeight_le (holds_of_readScript reads)
    change 4 * 35 + witnessScriptWeight script ≤ 8380
    omega
  · rcases Option.map_eq_some_iff.mp read with ⟨script, reads, rfl⟩
    exact satisfactionWeight_le_of_scriptHash (holds_of_readScript reads)

/-- No descriptor that is read weighs more. -/
theorem satisfactionWeight_le {term : Term} {descriptor : Descriptor}
    (read : ofTerm? term = some descriptor) :
    descriptor.satisfactionWeight ≤ greatestWeight := by
  unfold ofTerm? at read
  split at read
  · rcases Option.map_eq_some_iff.mp read with ⟨form, -, rfl⟩
    cases form <;> decide
  · split at read
    · cases read
      decide
    · cases read
  · exact satisfactionWeight_le_of_readScriptHash read
  · rcases Option.map_eq_some_iff.mp read with ⟨script, reads, rfl⟩
    have weight_le := witnessScriptWeight_le (holds_of_readScript reads)
    change witnessScriptWeight script ≤ 8380
    omega
  · rcases Option.map_eq_some_iff.mp read with ⟨form, -, rfl⟩
    decide
  · rcases Option.map_eq_some_iff.mp read with ⟨script, reads, rfl⟩
    have data_le : script.satisfactionSize ≤ 220 := (holds_of_readScript reads).satisfactionSize_le
    have weight_le := inputScriptWeight_le data_le (by decide)
    change inputScriptWeight script.satisfactionSize ≤ 8380
    omega

example :
    (Descriptor.scriptHash (.multi 15 (List.replicate 15 .uncompressed))).satisfactionWeight =
      greatestWeight := by
  decide

/-- The weight that a text has as a word is the weight of the descriptor. -/
theorem toNat_of_weight? {text : String} {weight : UInt64} (read : weight? text = some weight) :
    ∃ descriptor, parse? text = some descriptor ∧
      weight.toNat = descriptor.satisfactionWeight ∧ weight.toNat ≤ greatestWeight := by
  rcases Option.map_eq_some_iff.mp read with ⟨descriptor, parses, rfl⟩
  rcases Option.bind_eq_some_iff.mp parses with ⟨body, -, reads⟩
  rcases Option.bind_eq_some_iff.mp reads with ⟨term, -, reads⟩
  have weight_le := satisfactionWeight_le reads
  have toNat_eq : (UInt64.ofNat descriptor.satisfactionWeight).toNat =
      descriptor.satisfactionWeight :=
    UInt64.toNat_ofNat_of_lt' (weight_le.trans_lt (by decide))
  exact ⟨descriptor, parses, toNat_eq, toNat_eq.trans_le weight_le⟩

end Descriptor

/-! ## Outputs with a descriptor -/

/-- Spending an output that has taken its weight from a descriptor adds at most
2135 virtual bytes, so it is priced at every rate at which these are. -/
theorem Utxo.prices_of_withDescriptor {utxo weighed : Utxo} {text : String}
    (weighs : utxo.withDescriptor text = .ok weighed) {calculator : FeeCalculator}
    (rate_lt : calculator.baseRate * 2135 < wordBound) :
    weighed.virtualSize ≤ 2135 ∧
      calculator.inputFee weighed = .ok (calculator.exactInputFee weighed) := by
  rw [withDescriptor] at weighs
  cases read : Descriptor.weight? text with
  | none =>
      rw [read] at weighs
      cases weighs
  | some weight =>
      rw [read] at weighs
      cases weighs
      rcases Descriptor.toNat_of_weight? read with ⟨descriptor, -, -, weight_le⟩
      have total_le : inputBaseWeight + weight.toNat + 3 ≤ 8543 :=
        Nat.add_le_add_right (Nat.add_le_add_left weight_le inputBaseWeight) 3
      have size_le : (inputBaseWeight + weight.toNat + 3) / 4 ≤ 2135 :=
        Nat.div_le_div_right total_le
      refine ⟨size_le, FeeCalculator.inputFee_eq_ok_iff.mpr ⟨⟨?_, ?_⟩, rfl⟩⟩
      · exact total_le.trans_lt (by decide)
      · exact (Nat.mul_le_mul_left calculator.baseRate size_le).trans_lt rate_lt

end CoinSelection
