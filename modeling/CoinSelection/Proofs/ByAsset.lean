import CoinSelection.MultiAsset

/-!
# Values by asset

Values by asset list every asset once, in the order of the assets.  Inserting
keeps that order, and a value for an asset after all others goes to the end, so
totals that are gathered asset by asset list the assets as they came.
-/

namespace CoinSelection

instance : Std.TransOrd AssetId :=
  inferInstanceAs (Std.TransCmp (compareOn fun asset : AssetId => asset.bytes.toList))

namespace ByAsset

variable {values : ByAsset} {asset : AssetId} {value : Nat}

/-- Every asset is listed once, in the order of the assets. -/
def Ordered (values : ByAsset) : Prop :=
  values.Pairwise fun one other => compare one.1 other.1 = .lt

/-! ## Inserting -/

theorem eq_or_mem_of_mem_insert {entry : AssetId × Nat}
    (member : entry ∈ values.insert asset value) : entry = (asset, value) ∨ entry ∈ values := by
  induction values with
  | nil => exact .inl (List.mem_singleton.mp member)
  | cons head rest ih =>
      obtain ⟨first, firstValue⟩ := head
      rw [insert] at member
      split at member
      · exact List.mem_cons.mp member
      · exact (List.mem_cons.mp member).imp_right (List.mem_cons_of_mem _)
      · rcases List.mem_cons.mp member with rfl | member
        · exact .inr List.mem_cons_self
        · exact (ih member).imp_right (List.mem_cons_of_mem _)

/-- Inserting keeps the order. -/
theorem Ordered.insert (ordered : values.Ordered) (asset : AssetId) (value : Nat) :
    Ordered (values.insert asset value) := by
  induction values with
  | nil => exact List.pairwise_singleton _ _
  | cons head rest ih =>
      obtain ⟨first, firstValue⟩ := head
      obtain ⟨smallest, restOrdered⟩ := List.pairwise_cons.mp ordered
      rw [ByAsset.insert]
      split
      · rename_i before
        refine List.pairwise_cons.mpr ⟨fun entry member => ?_, ordered⟩
        rcases List.mem_cons.mp member with rfl | member
        · exact before
        · exact Std.TransCmp.lt_trans before (smallest entry member)
      · rename_i same
        obtain rfl := AssetId.compare_eq_eq_iff.mp same
        exact List.pairwise_cons.mpr ⟨smallest, restOrdered⟩
      · rename_i after
        refine List.pairwise_cons.mpr ⟨fun entry member => ?_, ih restOrdered⟩
        rcases eq_or_mem_of_mem_insert member with rfl | member
        · exact Std.OrientedCmp.lt_of_gt after
        · exact smallest entry member

/-- Values put one after another are in order. -/
theorem ordered_ofList (entries : List (AssetId × Nat)) : Ordered (ofList entries) := by
  suffices run : ∀ values : ByAsset, values.Ordered →
      Ordered (entries.foldl (fun values entry => values.insert entry.1 entry.2) values) from
    run [] List.Pairwise.nil
  induction entries with
  | nil => exact fun values ordered => ordered
  | cons entry rest ih => exact fun values ordered => ih _ (ordered.insert entry.1 entry.2)

/-- A value for an asset after all others goes to the end. -/
theorem insert_eq_append (last : ∀ entry ∈ values, compare entry.1 asset = .lt) :
    values.insert asset value = values ++ [(asset, value)] := by
  induction values with
  | nil => rfl
  | cons head rest ih =>
      obtain ⟨headBefore, restBefore⟩ := List.forall_mem_cons.mp last
      have after : compare asset head.1 = .gt := Std.OrientedCmp.gt_of_lt headBefore
      rw [insert, after, ih restBefore, List.cons_append]

/-! ## Looking up -/

/-- The assets of values in order are distinct. -/
theorem Ordered.nodup (ordered : values.Ordered) : (values.map Prod.fst).Nodup := by
  refine List.pairwise_map.mpr (ordered.imp fun {one other} before same => ?_)
  rw [AssetId.compare_eq_eq_iff.mpr same] at before
  cases before

/-- Looking up finds what is listed, if every asset is listed once. -/
theorem get?_eq_some_iff (distinct : (values.map Prod.fst).Nodup) :
    values.get? asset = some value ↔ (asset, value) ∈ values := by
  induction values with
  | nil => simp [get?]
  | cons head rest ih =>
      obtain ⟨first, firstValue⟩ := head
      obtain ⟨absent, restDistinct⟩ := List.nodup_cons.mp distinct
      rw [get?, List.lookup_cons, List.mem_cons, Prod.mk.injEq]
      by_cases same : asset = first
      · subst same
        have notLater : (asset, value) ∉ rest := fun member =>
          absent (List.mem_map.mpr ⟨_, member, rfl⟩)
        simp [notLater, eq_comm]
      · have different : (asset == first) = false := beq_eq_false_iff_ne.mpr same
        simpa [get?, different, same] using ih restDistinct

end ByAsset

end CoinSelection
