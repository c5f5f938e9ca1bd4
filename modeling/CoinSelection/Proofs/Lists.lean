import Mathlib.Data.List.Forall2

/-!
# Lists with keys, parts of lists, and lists entry by entry

An entry is found by its key where no two entries share a key, and a part of the
list does not repeat a key either.  A conversion that may fail relates a list to
its result entry by entry, and a part of the result comes from a part of the
list.
-/

namespace CoinSelection

variable {α β ε κ : Type}

/-- Distinct keys lead to their entries. -/
theorem find?_of_nodup_keys [DecidableEq κ] {key : α → κ} {entries : List α}
    (distinct : (entries.map key).Nodup) {entry : α} (member : entry ∈ entries) :
    entries.find? (fun other => key other = key entry) = some entry := by
  induction entries with
  | nil => cases member
  | cons first entries ih =>
      rw [List.map_cons, List.nodup_cons] at distinct
      rcases List.mem_cons.mp member with rfl | later
      · exact List.find?_cons_of_pos (decide_eq_true rfl)
      · have other : key first ≠ key entry := by
          intro same
          exact distinct.1 (same ▸ List.mem_map_of_mem later)
        rw [List.find?_cons_of_neg (by simpa using other)]
        exact ih distinct.2 later

/-- Keys that are distinct in a list are distinct in a part of it. -/
theorem nodup_keys_of_subperm {key : α → κ} {part whole : List α} (subperm : part.Subperm whole)
    (distinct : (whole.map key).Nodup) : (part.map key).Nodup := by
  rcases subperm with ⟨arranged, perm, sublist⟩
  exact (perm.map key).nodup_iff.mp (distinct.sublist (sublist.map key))

/-- A test that only the members of a sublist pass leaves that sublist, if no
element is repeated. -/
theorem filter_eq_of_sublist {part whole : List α} {test : α → Bool}
    (sublist : part.Sublist whole) (distinct : whole.Nodup)
    (passes_iff : ∀ element ∈ whole, test element = true ↔ element ∈ part) :
    whole.filter test = part := by
  induction sublist with
  | slnil => rfl
  | cons head sublist ih =>
      obtain ⟨absent, restDistinct⟩ := List.nodup_cons.mp distinct
      obtain ⟨head_iff, rest_iff⟩ := List.forall_mem_cons.mp passes_iff
      have fails : ¬ test head = true := fun passes =>
        absent (sublist.subset (head_iff.mp passes))
      rw [List.filter_cons_of_neg fails, ih restDistinct rest_iff]
  | cons_cons head sublist ih =>
      obtain ⟨absent, restDistinct⟩ := List.nodup_cons.mp distinct
      obtain ⟨head_iff, rest_iff⟩ := List.forall_mem_cons.mp passes_iff
      have passes : test head = true := head_iff.mpr List.mem_cons_self
      rw [List.filter_cons_of_pos passes, ih restDistinct fun element member => ?_]
      have different : element ≠ head := fun same => absent (same ▸ member)
      simpa [different] using rest_iff element member

/-- A list is converted when each of its entries is. -/
theorem mapM_eq_ok_iff {convert : α → Except ε β} {entries : List α} {results : List β} :
    entries.mapM convert = .ok results ↔
      List.Forall₂ (fun entry result => convert entry = .ok result) entries results := by
  induction entries generalizing results with
  | nil => cases results <;> simp [pure, Except.pure]
  | cons entry entries ih =>
      rw [List.mapM_cons]
      cases first : convert entry with
      | error failure => cases results <;> simp [bind, Except.bind, first]
      | ok result =>
          cases rest : entries.mapM convert with
          | error failure =>
              cases results <;> simp [bind, Except.bind, first, ← ih, rest]
          | ok others =>
              cases results <;>
                simp [bind, Except.bind, pure, Except.pure, first, ← ih, rest]

/-- A part of the results belongs to a part of the entries. -/
theorem exists_sublist_of_forall₂ {related : α → β → Prop} {entries : List α}
    {results part : List β} (each : List.Forall₂ related entries results)
    (sublist : part.Sublist results) :
    ∃ chosen, chosen.Sublist entries ∧ List.Forall₂ related chosen part := by
  induction sublist generalizing entries with
  | slnil => exact ⟨[], List.nil_sublist entries, .nil⟩
  | cons result _ ih =>
      cases each with
      | @cons entry _ entries _ _ others =>
          rcases ih others with ⟨chosen, fewer, related⟩
          exact ⟨chosen, fewer.cons entry, related⟩
  | cons_cons result _ ih =>
      cases each with
      | @cons entry _ entries _ first others =>
          rcases ih others with ⟨chosen, fewer, related⟩
          exact ⟨entry :: chosen, fewer.cons_cons entry, .cons first related⟩

end CoinSelection
