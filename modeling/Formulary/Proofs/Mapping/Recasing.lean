import Formulary.Bindings
import Formulary.Proofs.Mapping.FlatKeys
import Formulary.Proofs.Text.AsciiCase
import Mathlib.Data.List.Forall2

/-!
# Letter case in data

A nested mapping without letter case has the ASCII letters of its text keys in lower case, at every
level, and the same leaves (`Mapping.uncased`). Where letter case does not count, the name that a
leaf is written to does not depend on the case of the keys above it. But a mapping is flattened
before its keys become names, so of two leaves with one flat key only the later one is written, at
the place of the first one; therefore data that are the same but for letter case write the same
entries if the same ones of their leaves have flat keys in common (`Mapping.CoincideAlike`,
`Bindings.entriesOf_of_uncased_eq`).
-/

namespace Formulary

/-! ### Tables with matching keys -/

namespace Table

variable {κ κ' ν : Type} [BEq κ] [BEq κ']

/-- Whether two entries have keys that are related and the same value. -/
def Matches (R : κ → κ' → Prop) (entry : κ × ν) (entry' : κ' × ν) : Prop :=
  R entry.1 entry'.1 ∧ entry.2 = entry'.2

variable {R : κ → κ' → Prop}
  (hR : ∀ {key key' other other'}, R key key' → R other other' →
    (key == other) = (key' == other'))
include hR

theorem forall₂_insert {t : Table κ ν} {t' : Table κ' ν} (ht : List.Forall₂ (Matches R) t t')
    {entry : κ × ν} {entry' : κ' × ν} (hentry : Matches R entry entry') :
    List.Forall₂ (Matches R) (insert t entry.1 entry.2) (insert t' entry'.1 entry'.2) := by
  induction ht with
  | nil => exact .cons hentry .nil
  | @cons first first' rest rest' hfirst hrest ih =>
    rw [insert, insert, hR hfirst.1 hentry.1]
    split
    · exact .cons ⟨hfirst.1, hentry.2⟩ hrest
    · exact .cons hfirst ih

/-- Where keys are equal if and only if the related ones are, tables of related entries are related
entry by entry. -/
theorem forall₂_insertAll {t : Table κ ν} {t' : Table κ' ν} (ht : List.Forall₂ (Matches R) t t')
    {entries : List (κ × ν)} {entries' : List (κ' × ν)}
    (hentries : List.Forall₂ (Matches R) entries entries') :
    List.Forall₂ (Matches R) (insertAll t entries) (insertAll t' entries') := by
  induction hentries generalizing t t' with
  | nil => exact ht
  | cons hfirst _ ih =>
    rw [insertAll_cons, insertAll_cons]
    exact ih (forall₂_insert hR ht hfirst)

end Table

/-! ### Data without letter case -/

/-- A key without letter case, if it is a text. -/
def Value.uncasedKey : Value → Value
  | .text s => .text (String.ofList (s.toList.map Char.toLower))
  | key => key

mutual

/-- A value with the text keys of nested mappings without letter case; what is no mapping is left
as it is. -/
def Value.uncased : Value → Value
  | .map entries => .map (Mapping.uncased entries)
  | .object identity content =>
    if content.isMap then content.uncased else .object identity content
  | v => v

/-- The entries of a mapping with text keys without letter case, at every level. -/
def Mapping.uncased : List (Value × Value) → List (Value × Value)
  | [] => []
  | (k, v) :: rest => (k.uncasedKey, v.uncased) :: Mapping.uncased rest

end

/-- A leaf without letter case in its path. -/
def Mapping.uncasedLeaf (leaf : List Value × Value) : List Value × Value :=
  (leaf.1.map Value.uncasedKey, leaf.2)

mutual

/-- The leaves of data without letter case are those of the data, with other paths. -/
theorem Value.leavesAt_uncased (path : List Value) : ∀ v : Value,
    v.uncased.leavesAt (path.map Value.uncasedKey) =
      (v.leavesAt path).map Mapping.uncasedLeaf
  | .map entries => Mapping.leavesAt_uncased path entries
  | .object identity content => by
    rw [Value.uncased, Value.leavesAt]
    split
    · exact Value.leavesAt_uncased path content
    · next h =>
      rw [Value.leavesAt, if_neg h]
      rfl
  | .none | .bool _ | .int _ | .float _ | .complex _ | .text _ | .list _ | .tuple _ | .symbol _
  | .undefined | .node _ | .cell .. => rfl

theorem Mapping.leavesAt_uncased (path : List Value) : ∀ entries : List (Value × Value),
    Mapping.leavesAt (path.map Value.uncasedKey) (Mapping.uncased entries) =
      (Mapping.leavesAt path entries).map Mapping.uncasedLeaf
  | [] => rfl
  | (k, v) :: rest => by
    have hpath : path.map Value.uncasedKey ++ [k.uncasedKey] =
        (path ++ [k]).map Value.uncasedKey := by rw [List.map_append]; rfl
    rw [Mapping.uncased, Mapping.leavesAt, Mapping.leavesAt, List.map_append, hpath,
      Value.leavesAt_uncased (path ++ [k]) v, Mapping.leavesAt_uncased path rest]

end

theorem Mapping.leaves_uncased (data : Mapping) :
    Mapping.leaves (Mapping.uncased data) = data.leaves.map Mapping.uncasedLeaf :=
  Mapping.leavesAt_uncased [] data

/-! ### Names -/

theorem Text.map_join (f : Char → Char) (separator : Char) (segments : List (List Char)) :
    (Text.join separator segments).map f = Text.join (f separator) (segments.map (·.map f)) := by
  induction segments with
  | nil => rfl
  | cons segment others ih =>
    cases others with
    | nil => rfl
    | cons next others =>
      rw [Text.join, List.map_append, List.map_cons, ih]
      · rfl
      · exact List.cons_ne_nil _ _

theorem Value.map_toLower_uncasedKey (key : Value) :
    key.uncasedKey.display.toList.map Char.toLower = key.display.toList.map Char.toLower := by
  cases key with
  | text s =>
    rw [uncasedKey, display_text, display_text, String.toList_ofList, List.map_map]
    exact congrArg (s.toList.map ·) (funext Text.toLower_toLower)
  | _ => rfl

namespace Path

theorem map_toLower_joined (path : List Value) :
    (joined (path.map Value.uncasedKey)).map Char.toLower = (joined path).map Char.toLower := by
  rw [joined, joined, Text.map_join, Text.map_join, List.map_map, List.map_map, List.map_map]
  exact congrArg (Text.join _ <| path.map ·) (funext Value.map_toLower_uncasedKey)

/-- Letter case in a path does not change the name that it is written to. -/
theorem lowerCase_toKey_uncased (path : List Value) :
    Text.lowerCase (toKey (path.map Value.uncasedKey)).display =
      Text.lowerCase (toKey path).display := by
  rw [Text.lowerCase, Text.lowerCase, display_toKey, display_toKey, ← Text.lower_map_toLower,
    map_toLower_joined, Text.lower_map_toLower]

end Path

/-! ### What data write -/

namespace Mapping

/-- The flat keys of the leaves of a nested mapping, in document order. -/
def flatKeys (data : Mapping) : List Value := data.leaves.map fun leaf => Path.toKey leaf.1

/-- Whether the same ones of the leaves of two nested mappings have flat keys in common. -/
def CoincideAlike (data data' : Mapping) : Prop :=
  ∀ x ∈ data.flatKeys.zip data'.flatKeys, ∀ y ∈ data.flatKeys.zip data'.flatKeys,
    (x.1 == y.1) = (x.2 == y.2)

/-- The leaves of data that are the same but for letter case, side by side. -/
theorem forall₂_leaves {data data' : Mapping} (h : uncased data = uncased data') :
    List.Forall₂ (fun leaf leaf' => uncasedLeaf leaf = uncasedLeaf leaf') data.leaves
      data'.leaves := by
  have hleaves : data.leaves.map uncasedLeaf = data'.leaves.map uncasedLeaf := by
    rw [← leaves_uncased, ← leaves_uncased, h]
  rw [← List.forall₂_eq_eq_eq, List.forall₂_map_left_iff, List.forall₂_map_right_iff] at hleaves
  exact hleaves

end Mapping

/-- **Where letter case does not count, data that are the same but for letter case write the same
entries**, if the same ones of their leaves have flat keys in common. -/
theorem Bindings.entriesOf_of_uncased_eq {b : Bindings} (hcase : b.caseSensitive = false)
    (hnested : b.ignoreNested = false) {data data' : Mapping}
    (h : Mapping.uncased data = Mapping.uncased data') (hcoincide : data.CoincideAlike data') :
    b.entriesOf data' = b.entriesOf data := by
  -- the flat keys side by side, of which each two are written to one name
  let R : Value → Value → Prop := fun key key' => (key, key') ∈ data.flatKeys.zip data'.flatKeys ∧
    b.normalize key' = b.normalize key
  have hnames : List.Forall₂ (fun key key' => b.normalize key' = b.normalize key)
      data.flatKeys data'.flatKeys := by
    rw [Mapping.flatKeys, Mapping.flatKeys, List.forall₂_map_left_iff, List.forall₂_map_right_iff]
    refine (Mapping.forall₂_leaves h).imp fun leaf leaf' hleaf => ?_
    have hpath : leaf.1.map Value.uncasedKey = leaf'.1.map Value.uncasedKey :=
      congrArg Prod.fst hleaf
    rw [normalize, normalize, hcase, if_neg Bool.false_ne_true, if_neg Bool.false_ne_true,
      ← Path.lowerCase_toKey_uncased, ← hpath, Path.lowerCase_toKey_uncased]
  have hkeys : List.Forall₂ R data.flatKeys data'.flatKeys := by
    rw [List.forall₂_iff_zip] at hnames ⊢
    exact ⟨hnames.1, fun hmem => ⟨hmem, hnames.2 hmem⟩⟩
  have hflat : List.Forall₂ (Table.Matches R) data.flatten data'.flatten := by
    refine Table.forall₂_insertAll (fun hkey hother => hcoincide _ hkey.1 _ hother.1) .nil ?_
    rw [Mapping.flatKeys, Mapping.flatKeys, List.forall₂_map_left_iff,
      List.forall₂_map_right_iff] at hkeys
    rw [List.forall₂_map_left_iff, List.forall₂_map_right_iff]
    refine List.Forall₂.mp (fun leaf leaf' hleaf hkey => ?_) (Mapping.forall₂_leaves h) hkeys
    have hvalue : (Mapping.uncasedLeaf leaf).2 = (Mapping.uncasedLeaf leaf').2 :=
      congrArg Prod.snd hleaf
    exact ⟨hkey, hvalue⟩
  rw [entriesOf, entriesOf, hnested, Mapping.flattenUnless_false, Mapping.flattenUnless_false]
  symm
  rw [← List.forall₂_eq_eq_eq, List.forall₂_map_left_iff, List.forall₂_map_right_iff]
  exact hflat.imp fun entry entry' hentry => Prod.ext hentry.1.2.symm hentry.2

end Formulary
