import Formulary.Proofs.Mapping.Nesting

/-!
# Dotted texts

Every path is written as the texts of its segments with a point between each two. If all keys of a
nested mapping are texts, these dotted texts are all that flattening keeps of the paths, and the
flat mapping is the table of the leaves by their dotted texts (`flatten_of_hasTextPaths`). A key may
have points in it as well, so leaves at different paths may have one dotted text. Then they have one
entry in the table, in the place of the first of them and with the value of the last.
-/

namespace Formulary

namespace Path

/-- The texts of the segments of a path with a point between each two. -/
def joined (path : List Value) : List Char :=
  Text.join separator (path.map (·.display.toList))

/-- Every path is written as its segments joined. -/
theorem display_toKey (path : List Value) : (toKey path).display.toList = joined path := by
  rcases path with - | ⟨key, - | ⟨next, rest⟩⟩
  · rfl
  · rfl
  · rw [toKey]
    · split
      · rw [Value.display_symbol, String.toList_ofList]
        rfl
      · rw [Value.display_text, String.toList_ofList]
        rfl
    · intro segment hsegment
      cases hsegment

/-- A path that starts with a text is written as a text. -/
theorem toKey_text (s : String) (path : List Value) :
    toKey (.text s :: path) = .text (String.ofList (joined (.text s :: path))) := by
  obtain ⟨t, ht⟩ : ∃ t, toKey (.text s :: path) = .text t := by
    rcases path with - | ⟨next, rest⟩
    · exact ⟨s, toKey_singleton _⟩
    · exact ⟨_, rfl⟩
  rw [← display_toKey, ht, Value.display_text, String.ofList_toList]

end Path

namespace Mapping

/-- Whether the keys on the way to every leaf of a nested mapping are texts. -/
def HasTextPaths (data : Mapping) : Prop :=
  ∀ leaf ∈ data.leaves, ∀ key ∈ leaf.1, ∃ s, key = .text s

/-- The leaves of a nested mapping by the dotted texts of their paths, in document order. -/
def dotted (data : Mapping) : List (String × Value) :=
  data.leaves.map fun leaf => (String.ofList (Path.joined leaf.1), leaf.2)

variable {data : Mapping}

theorem length_dotted (data : Mapping) : data.dotted.length = data.leaves.length :=
  List.length_map _

/-- Flattening writes the leaves one after the other by their dotted texts. -/
theorem flatten_of_hasTextPaths (h : data.HasTextPaths) :
    data.flatten = ofNames (Table.ofPairs data.dotted) := by
  have hpairs : (data.leaves.map fun leaf => (Path.toKey leaf.1, leaf.2)) =
      ofNames data.dotted := by
    rw [dotted, ofNames, List.map_map]
    refine List.map_congr_left fun leaf hleaf => ?_
    obtain ⟨key, -, path, hpath⟩ := exists_key_of_mem_leaves hleaf
    obtain ⟨s, rfl⟩ := h leaf hleaf key (by rw [hpath]; exact List.mem_cons_self)
    show (Path.toKey leaf.1, leaf.2) = (Value.text (String.ofList (Path.joined leaf.1)), leaf.2)
    rw [hpath, Path.toKey_text]
  rw [flatten, hpairs, Table.ofPairs]
  exact insertAll_ofNames [] data.dotted

end Mapping

end Formulary
