import Formulary.Proofs.Table
import Formulary.Proofs.Text.LetterCase

/-!
# What a mapping writes

A flat mapping by names that stand for themselves writes just these names, each with its value
(`get?_writeAll_ofNames`). Unless mappings are promised to be flat, what is written are leaves, so
no name gets a mapping from it (`get?_writeAll_of_isMap`).
-/

namespace Formulary

namespace Mapping

mutual

theorem isMap_of_mem_leavesAt : ∀ (v : Value) (path : List Value),
    ∀ leaf ∈ v.leavesAt path, leaf.2.isMap = false
  | .map entries, path => by
    rw [Value.leavesAt]
    exact isMap_of_mem_entriesLeaves entries path
  | .object identity content, path => by
    rw [Value.leavesAt]
    rcases h : content.isMap with - | -
    · intro leaf hleaf
      rw [if_neg (by simp), List.mem_singleton] at hleaf
      subst hleaf
      exact h
    · rw [if_pos rfl]
      exact isMap_of_mem_leavesAt content path
  | .none, path | .bool _, path | .int _, path | .float _, path | .complex _, path | .text _, path
  | .list _, path | .tuple _, path | .symbol _, path | .undefined, path | .node _, path
  | .cell .., path => by
    intro leaf hleaf
    simp only [Value.leavesAt, List.mem_singleton] at hleaf
    subst hleaf
    rfl

theorem isMap_of_mem_entriesLeaves : ∀ (entries : List (Value × Value)) (path : List Value),
    ∀ leaf ∈ leavesAt path entries, leaf.2.isMap = false
  | [], path => by simp [leavesAt]
  | (k, v) :: rest, path => by
    intro leaf hleaf
    rw [leavesAt, List.mem_append] at hleaf
    rcases hleaf with hleaf | hleaf
    · exact isMap_of_mem_leavesAt v (path ++ [k]) leaf hleaf
    · exact isMap_of_mem_entriesLeaves rest path leaf hleaf

end

/-- Nothing in a flat form is a mapping. -/
theorem isMap_of_mem_flatten {nested : Mapping} {entry : Value × Value}
    (h : entry ∈ nested.flatten) : entry.2.isMap = false := by
  rw [flatten, Table.ofPairs] at h
  rcases Table.mem_insertAll h with h | ⟨written, hw, heq⟩
  · cases h
  · obtain ⟨leaf, hleaf, rfl⟩ := List.mem_map.mp hw
    rw [heq]
    exact isMap_of_mem_entriesLeaves nested [] leaf hleaf

end Mapping

attribute [ext] Bindings

namespace Bindings

variable {b : Bindings}

/-- Whether a table can be written as it is: its names are different and stand for themselves, and
unless mappings are promised to be flat it has none. -/
structure IsFlat (b : Bindings) (t : Table String Value) : Prop where
  nodup : (Table.keys t).Nodup
  named : ∀ name ∈ Table.keys t, b.normalize (.text name) = name
  leaves : b.ignoreNested = true ∨ ∀ entry ∈ t, entry.2.isMap = false

variable {t : Table String Value}

theorem entriesOf_ofNames (h : b.IsFlat t) : b.entriesOf (Mapping.ofNames t) = t := by
  have hdata : Mapping.flattenUnless b.ignoreNested (Mapping.ofNames t) = Mapping.ofNames t := by
    rcases hi : b.ignoreNested with - | -
    · exact Mapping.flatten_ofNames h.nodup (h.leaves.resolve_left (by simp [hi]))
    · rfl
  rw [entriesOf, hdata, Mapping.ofNames, List.map_map]
  show t.map (fun entry => (b.normalize (.text entry.1), entry.2)) = t
  calc t.map (fun entry => (b.normalize (.text entry.1), entry.2)) = t.map id :=
        List.map_congr_left fun entry hentry =>
          Prod.ext (h.named entry.1 (List.mem_map_of_mem hentry)) rfl
    _ = t := List.map_id t

/-- Writing a flat mapping by names lays it over what is bound. -/
theorem get?_writeAll_ofNames (h : b.IsFlat t) (z : String) :
    Table.get? (b.writeAll (Mapping.ofNames t)).memory z =
      (Table.get? t z).or (Table.get? b.memory z) := by
  rw [writeAll, entriesOf_ofNames h]
  exact Table.get?_insertAll b.memory h.nodup z

/-- A mapping is bound to a name after writing only if it was before. -/
theorem get?_writeAll_of_isMap (hb : b.ignoreNested = false) {data : Mapping} {z : String}
    {v : Value} (h : Table.get? (b.writeAll data).memory z = some v) (hv : v.isMap = true) :
    Table.get? b.memory z = some v := by
  rw [writeAll] at h
  rcases Table.get?_insertAll_or h with h | ⟨entry, hentry, -, rfl⟩
  · exact h
  · rw [entriesOf, hb] at hentry
    obtain ⟨written, hw, rfl⟩ := List.mem_map.mp hentry
    rw [Mapping.isMap_of_mem_flatten hw] at hv
    cases hv

end Bindings

end Formulary
