import Mathlib.Data.List.Nodup

/-!
# Lists of keyed records

Tables are lists of records whose keys are distinct. An update in place keeps the keys, and a record
with a fresh key may be appended.
-/

namespace Syscore

section Keyed

variable {Record Key : Type*} {key : Record → Key} {records : List Record}

/-- An update that keeps the key of every record keeps the list of keys. -/
theorem map_key_map {update : Record → Record} (keeps : ∀ record, key (update record) = key record)
    (records : List Record) : (records.map update).map key = records.map key := by
  rw [List.map_map]
  exact List.map_congr_left fun record _ => keeps record

theorem map_key_ite {selected : Record → Prop} [DecidablePred selected] {update : Record → Record}
    (keeps : ∀ record, key (update record) = key record) (records : List Record) :
    (records.map fun record => if selected record then update record else record).map key =
      records.map key := by
  refine map_key_map (fun record => ?_) records
  split
  · exact keeps record
  · rfl

/-- The records after some of them have been updated. -/
theorem mem_map_ite {selected : Record → Prop} [DecidablePred selected]
    {update : Record → Record} {record : Record} :
    (record ∈ records.map fun record => if selected record then update record else record) ↔
      (record ∈ records ∧ ¬ selected record) ∨
        ∃ old ∈ records, selected old ∧ record = update old := by
  rw [List.mem_map]
  constructor
  · rintro ⟨old, inside, rfl⟩
    by_cases here : selected old
    · exact .inr ⟨old, inside, here, if_pos here⟩
    · rw [if_neg here]
      exact .inl ⟨inside, here⟩
  · rintro (⟨inside, apart⟩ | ⟨old, inside, here, rfl⟩)
    · exact ⟨record, inside, if_neg apart⟩
    · exact ⟨old, inside, if_pos here⟩

/-- The keys stay distinct when a fresh one is appended. -/
theorem nodup_concat {record : Record} (nodup : (records.map key).Nodup)
    (fresh : key record ∉ records.map key) : ((records ++ [record]).map key).Nodup := by
  rw [List.map_append]
  refine List.nodup_append.mpr ⟨nodup, List.nodup_singleton _, ?_⟩
  rintro old inside _ new rfl
  exact fresh (List.mem_singleton.mp new ▸ inside)

/-- Distinct keys tell the records apart. -/
theorem eq_of_key {left right : Record} (nodup : (records.map key).Nodup) (inside : left ∈ records)
    (inside' : right ∈ records) (same : key left = key right) : left = right :=
  List.inj_on_of_nodup_map nodup inside inside' same

end Keyed

end Syscore
