import Formulary.Proofs.Mapping.Nesting

/-!
# Flattening and expanding undo each other

A nested mapping whose keys are texts without points, or symbols without points, is found again
after flattening: each leaf is put where it was, and the levels above it are made anew in the order
in which they first get a leaf. So all that is lost are the nested mappings without a leaf, and
which objects the levels were (`Mapping.expand_flatten`).

A flat mapping is found again after expanding but for the entries that a later one displaces
(`Mapping.flatten_expand_eq_lasting`).

The first is shown level by level. The leaves below a key that is not there yet are put into a level
of its own at the end (`insertLeaves_under`). So with the leaves of each further key one entry is
added, or none if there are no leaves (`isRebuilt_of_isOrderly`, `insertLeaves_leaves_append`).
-/

namespace Formulary

/-! ### Segments without separators -/

namespace Text

theorem split_append {separator : Char} {segment : List Char} (h : separator ∉ segment)
    (rest : List Char) :
    split separator (segment ++ separator :: rest) = segment :: split separator rest := by
  induction segment with
  | nil => rw [List.nil_append, split, if_pos rfl]
  | cons c segment ih =>
    rw [List.mem_cons, not_or] at h
    rw [List.cons_append, split, if_neg fun hc => h.1 hc.symm, ih h.2]

/-- Joined segments that have no separator in them are split again. -/
theorem split_join {separator : Char} {segments : List (List Char)} (hne : segments ≠ [])
    (h : ∀ segment ∈ segments, separator ∉ segment) :
    split separator (join separator segments) = segments := by
  induction segments with
  | nil => exact absurd rfl hne
  | cons segment others ih =>
    obtain ⟨hsegment, hothers⟩ := List.forall_mem_cons.mp h
    cases others with
    | nil => exact split_of_not_mem hsegment
    | cons next others =>
      rw [join, split_append hsegment, ih (List.cons_ne_nil _ _) hothers]
      exact List.cons_ne_nil _ _

end Text

namespace Path

/-- Whether the keys of a path are all texts or all symbols, and none of them has a point in it. -/
def IsDotless (path : List Value) : Prop :=
  ∃ (name : String → Value) (texts : List String), (name = .text ∨ name = .symbol) ∧
    path = texts.map name ∧ ∀ s ∈ texts, separator ∉ s.toList

variable {path : List Value}

theorem IsDotless.isName (h : IsDotless path) : ∀ key ∈ path, key.IsName := by
  obtain ⟨name, texts, hname, rfl, -⟩ := h
  intro key hkey
  obtain ⟨s, -, rfl⟩ := List.mem_map.mp hkey
  rcases hname with rfl | rfl
  · exact ⟨s, .inl rfl⟩
  · exact ⟨s, .inr rfl⟩

theorem segments_join {texts : List String} (hne : texts ≠ [])
    (h : ∀ s ∈ texts, separator ∉ s.toList) :
    segments (String.ofList (Text.join separator (texts.map String.toList))) = texts := by
  rw [segments, String.toList_ofList, Text.split_join (by simpa using hne) (by simpa using h),
    List.map_map]
  exact (List.map_congr_left fun s _ => String.ofList_toList).trans (List.map_id _)

/-- A path without points is the path of the key that it is written as. -/
theorem IsDotless.ofKey_toKey (h : IsDotless path) (hne : path ≠ []) :
    ofKey (toKey path) = path := by
  obtain ⟨name, texts, hname, rfl, hdotless⟩ := h
  have htexts : texts ≠ [] := by simpa using hne
  have hsegments := segments_join htexts hdotless
  rw [toKey_map hname htexts]
  rcases hname with rfl | rfl
  · exact congrArg (List.map Value.text) hsegments
  · exact congrArg (List.map Value.symbol) hsegments

/-- A key is what its path is written as, if it carries no mark where it is a name. -/
theorem toKey_ofKey_of_isSegment {key : Value} (h : key.IsSegment) : toKey (ofKey key) = key := by
  rcases toKey_ofKey key with ⟨hkey, hname⟩ | ⟨hpath, -⟩
  · rw [hkey, (h hname).bare_eq]
  · rw [hpath, toKey_singleton]

end Path

/-! ### Levels -/

mutual

/-- A value with its nested mappings made anew, so that none of them is an object. What is no
mapping is left as it is. -/
def Value.copied : Value → Value
  | .map entries => .map (Mapping.copied entries)
  | .object identity content =>
    if content.isMap then content.copied else .object identity content
  | v => v

/-- The entries of a mapping with the nested mappings in them made anew. -/
def Mapping.copied : List (Value × Value) → List (Value × Value)
  | [] => []
  | (k, v) :: rest => (k, v.copied) :: Mapping.copied rest

end

mutual

/-- Whether a value is a leaf or has one in it. -/
def Value.hasLeaf : Value → Bool
  | .map entries => Mapping.hasLeaf entries
  | .object _ content => content.hasLeaf
  | _ => true

/-- Whether a mapping has a leaf in it. -/
def Mapping.hasLeaf : List (Value × Value) → Bool
  | [] => false
  | (_, v) :: rest => v.hasLeaf || Mapping.hasLeaf rest

end

mutual

/-- A value without the nested mappings that have no leaf in them. -/
def Value.pruned : Value → Value
  | .map entries => .map (Mapping.pruned entries)
  | .object identity content => .object identity content.pruned
  | v => v

/-- The entries of a mapping without the nested mappings that have no leaf in them. -/
def Mapping.pruned : List (Value × Value) → List (Value × Value)
  | [] => []
  | (k, v) :: rest =>
    if v.hasLeaf then (k, v.pruned) :: Mapping.pruned rest else Mapping.pruned rest

end

mutual

/-- Whether a value is no empty mapping and has none in it. -/
def Value.isFilled : Value → Bool
  | .map entries => !entries.isEmpty && Mapping.isFilled entries
  | .object _ content => content.isFilled
  | _ => true

/-- Whether no nested mapping in a mapping is empty. -/
def Mapping.isFilled : List (Value × Value) → Bool
  | [] => true
  | (_, v) :: rest => v.isFilled && Mapping.isFilled rest

end

namespace Value

theorem hasLeaf_of_not_isMap : ∀ {v : Value}, v.isMap = false → v.hasLeaf = true
  | .object _ content, h => hasLeaf_of_not_isMap (v := content) h
  | .none, _ | .bool _, _ | .int _, _ | .float _, _ | .complex _, _ | .text _, _ | .list _, _
  | .tuple _, _ | .symbol _, _ | .undefined, _ | .node _, _ | .cell .., _ => rfl

theorem pruned_of_not_isMap : ∀ {v : Value}, v.isMap = false → v.pruned = v
  | .object identity content, h =>
    congrArg (object identity) (pruned_of_not_isMap (v := content) h)
  | .none, _ | .bool _, _ | .int _, _ | .float _, _ | .complex _, _ | .text _, _ | .list _, _
  | .tuple _, _ | .symbol _, _ | .undefined, _ | .node _, _ | .cell .., _ => rfl

theorem copied_of_not_isMap {v : Value} (h : v.isMap = false) : v.copied = v := by
  cases v with
  | map entries => cases h
  | object identity content =>
    rw [copied, if_neg]
    exact Bool.not_eq_true _ ▸ h
  | _ => rfl

end Value

namespace Mapping

mutual

/-- Making the levels anew does not concern the leaves. -/
theorem leavesAt_copied (path : List Value) : ∀ v : Value,
    v.copied.leavesAt path = v.leavesAt path
  | .map entries => entriesLeaves_copied path entries
  | .object identity content => by
    rw [Value.copied, Value.leavesAt]
    split
    · exact leavesAt_copied path content
    · next h => rw [Value.leavesAt, if_neg h]
  | .none | .bool _ | .int _ | .float _ | .complex _ | .text _ | .list _ | .tuple _ | .symbol _
  | .undefined | .node _ | .cell .. => rfl

theorem entriesLeaves_copied (path : List Value) : ∀ entries : List (Value × Value),
    leavesAt path (copied entries) = leavesAt path entries
  | [] => rfl
  | (k, v) :: rest => by
    rw [copied, leavesAt, leavesAt, leavesAt_copied (path ++ [k]) v,
      entriesLeaves_copied path rest]

end

theorem leaves_copied (nested : Mapping) : leaves (copied nested) = leaves nested :=
  entriesLeaves_copied [] nested

theorem copied_eq_self {entries : Mapping} (h : ∀ entry ∈ entries, entry.2.copied = entry.2) :
    copied entries = entries := by
  induction entries with
  | nil => rfl
  | cons entry rest ih =>
    obtain ⟨hentry, hrest⟩ := List.forall_mem_cons.mp h
    rw [copied, hentry, ih hrest]

/-- A mapping without objects among its levels is left as it is. -/
theorem copied_of_isTree {entries : Mapping} (h : entries.IsTree) : copied entries = entries := by
  have hvalue : ∀ v : Value, v.IsTree → v.copied = v := by
    intro v hv
    induction hv with
    | leaf hv => exact Value.copied_of_not_isMap hv
    | branch _ ih => rw [Value.copied, copied_eq_self ih]
  exact copied_eq_self fun entry hentry => hvalue _ (h entry hentry)

mutual

theorem hasLeaf_iff : ∀ (v : Value) (path : List Value),
    v.hasLeaf = true ↔ v.leavesAt path ≠ []
  | .map entries, path => entriesHasLeaf_iff entries path
  | .object identity content, path => by
    rw [Value.hasLeaf, Value.leavesAt]
    split
    · exact hasLeaf_iff content path
    · next h => simp [Value.hasLeaf_of_not_isMap (Bool.not_eq_true _ ▸ h)]
  | .none, _ | .bool _, _ | .int _, _ | .float _, _ | .complex _, _ | .text _, _ | .list _, _
  | .tuple _, _ | .symbol _, _ | .undefined, _ | .node _, _ | .cell .., _ => by
    simp [Value.hasLeaf, Value.leavesAt]

theorem entriesHasLeaf_iff : ∀ (entries : List (Value × Value)) (path : List Value),
    hasLeaf entries = true ↔ leavesAt path entries ≠ []
  | [], _ => by simp [hasLeaf, leavesAt]
  | (k, v) :: rest, path => by
    rw [hasLeaf, leavesAt, Bool.or_eq_true, hasLeaf_iff v (path ++ [k]),
      entriesHasLeaf_iff rest path, ne_eq, ne_eq, ne_eq, List.append_eq_nil_iff]
    exact Decidable.not_and_iff_not_or_not.symm

end

/-! ### Putting leaves -/

/-- The mapping with leaves put where their paths lead, one after the other. -/
def insertLeaves (front : Mapping) (leaves : List (List Value × Value)) : Mapping :=
  leaves.foldl (fun nested leaf => insertAt nested leaf.1 leaf.2) front

theorem insertLeaves_append (front : Mapping) (first second : List (List Value × Value)) :
    insertLeaves front (first ++ second) = insertLeaves (insertLeaves front first) second :=
  List.foldl_append

section

variable {front : Mapping} {key : Value} (hnew : Table.get? front key = none)
include hnew

/-- The first leaf below a new key makes a level of its own. -/
theorem insertAt_new {path : List Value} (hne : path ≠ []) (v : Value) :
    insertAt front (key :: path) v = front ++ [(key, .map (insertAt [] path v))] := by
  obtain ⟨next, rest, rfl⟩ := List.exists_cons_of_ne_nil hne
  rw [insertAt, Table.insert_of_get?_eq_none hnew, child, hnew]
  · rfl
  · exact List.cons_ne_nil _ _

/-- A further leaf below the last key goes into the level of this key. -/
theorem insertAt_last (hkey : key.IsName) (inner : Mapping) {path : List Value} (hne : path ≠ [])
    (v : Value) : insertAt (front ++ [(key, .map inner)]) (key :: path) v =
      front ++ [(key, .map (insertAt inner path v))] := by
  obtain ⟨next, rest, rfl⟩ := List.exists_cons_of_ne_nil hne
  have hlast : child (front ++ [(key, .map inner)]) key = inner := by
    rw [child, Table.get?_append_of_get?_eq_none hnew, Table.get?, hkey.same_self]
    rfl
  rw [insertAt, hlast, Table.insert_append_of_get?_eq_none hnew, Table.insert, hkey.same_self]
  · rfl
  · exact List.cons_ne_nil _ _

/-- Leaves below the last key go into the level of this key. -/
theorem insertLeaves_last (hkey : key.IsName) (inner : Mapping)
    {leaves : List (List Value × Value)} (hne : ∀ leaf ∈ leaves, leaf.1 ≠ []) :
    insertLeaves (front ++ [(key, .map inner)]) (under key leaves) =
      front ++ [(key, .map (insertLeaves inner leaves))] := by
  induction leaves generalizing inner with
  | nil => rfl
  | cons leaf rest ih =>
    obtain ⟨hleaf, hrest⟩ := List.forall_mem_cons.mp hne
    rw [under, List.map_cons, insertLeaves, List.foldl_cons,
      insertAt_last hnew hkey inner hleaf]
    exact ih _ hrest

/-- **Leaves below a new key** make a level of their own at the end. -/
theorem insertLeaves_under (hkey : key.IsName) {leaves : List (List Value × Value)}
    (hleaves : leaves ≠ []) (hne : ∀ leaf ∈ leaves, leaf.1 ≠ []) :
    insertLeaves front (under key leaves) = front ++ [(key, .map (insertLeaves [] leaves))] := by
  obtain ⟨leaf, rest, rfl⟩ := List.exists_cons_of_ne_nil hleaves
  obtain ⟨hleaf, hrest⟩ := List.forall_mem_cons.mp hne
  rw [under, List.map_cons, insertLeaves, List.foldl_cons, insertAt_new hnew hleaf]
  exact insertLeaves_last hnew hkey _ hrest

end

theorem ne_nil_of_mem_leaves {entries : Mapping} {leaf : List Value × Value}
    (h : leaf ∈ leaves entries) : leaf.1 ≠ [] := by
  obtain ⟨key, -, path, hpath⟩ := exists_key_of_mem_leaves h
  rw [hpath]
  exact List.cons_ne_nil _ _

/-- What the leaves of an entry come to, put behind entries with other keys: the entry without the
nested mappings that have no leaf, or nothing if it has no leaf itself. -/
def IsRebuilt (entry : Value × Value) : Prop :=
  ∀ front : Mapping, Table.get? front entry.1 = none →
    (∀ leaf ∈ under entry.1 (entry.2.leavesAt []), ∀ key ∈ leaf.1, key.IsName) →
    insertLeaves front (under entry.1 (entry.2.leavesAt [])) =
      front ++ if entry.2.hasLeaf then [(entry.1, entry.2.pruned)] else []

/-- The leaves of entries make these entries anew. -/
theorem insertLeaves_leaves_append {front entries : Mapping}
    (hapart : Table.HasApartKeys (front ++ entries))
    (hnames : ∀ leaf ∈ leaves entries, ∀ key ∈ leaf.1, key.IsName)
    (h : ∀ entry ∈ entries, IsRebuilt entry) :
    insertLeaves front (leaves entries) = front ++ pruned entries := by
  -- what is made anew so far becomes the front of the rest
  induction entries generalizing front with
  | nil => simp [pruned, insertLeaves]
  | cons entry rest ih =>
    obtain ⟨key, v⟩ := entry
    obtain ⟨hentry, hrest⟩ := List.forall_mem_cons.mp h
    rw [leaves_cons] at hnames
    obtain ⟨hnamesEntry, hnamesRest⟩ := List.forall_mem_append.mp hnames
    have hnew : Table.get? front key = none := by
      rw [Table.HasApartKeys, Table.keys, List.map_append, List.pairwise_append] at hapart
      exact Table.get?_eq_none_of_apart fun other hother =>
        hapart.2.2 other.1 (List.mem_map_of_mem hother) key List.mem_cons_self
    rw [leaves_cons, insertLeaves_append, hentry front hnew hnamesEntry, pruned]
    split
    · -- the entry is made anew behind those before it
      have hapart' : Table.HasApartKeys ((front ++ [(key, v.pruned)]) ++ rest) := by
        simpa [Table.HasApartKeys, Table.keys] using hapart
      rw [ih hapart' hnamesRest hrest, List.append_assoc]
      rfl
    · -- the entry has no leaves, so the rest comes behind the same front
      have hapart' : Table.HasApartKeys (front ++ rest) := by
        refine List.Pairwise.sublist ?_ hapart
        exact ((List.sublist_cons_self _ _).append_left front).map Prod.fst
      rw [List.append_nil, ih hapart' hnamesRest hrest]

/-- **The leaves of an orderly mapping make it anew**, without the nested mappings that have none.
-/
theorem isRebuilt_of_isOrderly {v : Value} (h : v.IsOrderly) (key : Value) :
    IsRebuilt (key, v) := by
  induction h generalizing key with
  | @leaf v h =>
    intro front hnew _
    rw [leavesAt_of_not_isMap h, Value.hasLeaf_of_not_isMap h, Value.pruned_of_not_isMap h]
    exact Table.insert_of_get?_eq_none hnew v
  | @branch entries hapart _ _ ih =>
    intro front hnew hnames
    rw [leavesAt_map] at hnames ⊢
    -- the first leaf, if there is one, makes the level, and the others go into it
    rcases hleaves : leaves entries with - | ⟨leaf, others⟩
    · have hnone : (Value.map entries).hasLeaf = false := by
        rw [← Bool.not_eq_true, hasLeaf_iff _ [], leavesAt_map, hleaves]
        simp
      rw [hnone]
      simp [under, insertLeaves]
    · have hsome : (Value.map entries).hasLeaf = true := by
        rw [hasLeaf_iff _ [], leavesAt_map, hleaves]
        exact List.cons_ne_nil _ _
      have hkeys : ∀ leaf ∈ leaves entries, ∀ k ∈ key :: leaf.1, k.IsName := fun leaf hleaf =>
        hnames (key :: leaf.1, leaf.2) (List.mem_map_of_mem hleaf)
      have hkey : key.IsName :=
        hkeys leaf (hleaves ▸ List.mem_cons_self) key List.mem_cons_self
      have hinner : insertLeaves [] (leaves entries) = pruned entries :=
        insertLeaves_leaves_append hapart
          (fun leaf hleaf k hk => hkeys leaf hleaf k (List.mem_cons_of_mem _ hk))
          fun entry hentry => ih entry hentry entry.1
      rw [← hleaves, hsome, insertLeaves_under hnew hkey (by simp [hleaves])
        fun leaf hleaf => ne_nil_of_mem_leaves hleaf, hinner, Value.pruned]
      rfl

theorem insertLeaves_leaves {entries : Mapping} (h : entries.IsOrderly)
    (hnames : ∀ leaf ∈ leaves entries, ∀ key ∈ leaf.1, key.IsName) :
    insertLeaves [] (leaves entries) = pruned entries := by
  obtain ⟨hapart, -, hvalues⟩ := isOrderly_iff.mp h
  exact insertLeaves_leaves_append hapart hnames fun entry hentry =>
    isRebuilt_of_isOrderly (hvalues entry hentry) entry.1

/-! ### Expanding what was flattened -/

/-- Leaves at different paths without points have different flat keys. -/
theorem flatten_of_isDotless {nested : Mapping} (h : nested.IsOrderly)
    (hpaths : ∀ leaf ∈ nested.leaves, Path.IsDotless leaf.1) :
    nested.flatten = nested.leaves.map fun leaf => (Path.toKey leaf.1, leaf.2) := by
  have hown (leaf : List Value × Value) (hleaf : leaf ∈ nested.leaves) :
      Path.ofKey (Path.toKey leaf.1) = leaf.1 :=
    (hpaths leaf hleaf).ofKey_toKey (ne_nil_of_mem_leaves hleaf)
  have hapart := pairwise_leavesAt h
  rw [leavesAt_map] at hapart
  refine Table.ofPairs_of_hasApartKeys ?_
  rw [Table.HasApartKeys, Table.keys, List.map_map, List.pairwise_map]
  refine hapart.imp_of_mem fun {leaf other} hleaf hother hne => ?_
  -- both paths can be read off their keys, so the keys differ as the paths do
  rw [← hown leaf hleaf, ← hown other hother] at hne
  have hkeys := Path.toKey_apart hne
  rwa [hown leaf hleaf, hown other hother] at hkeys

theorem expand_flatten_of_isOrderly {nested : Mapping} (h : nested.IsOrderly)
    (hpaths : ∀ leaf ∈ nested.leaves, Path.IsDotless leaf.1) :
    expand nested.flatten = pruned nested := by
  rw [flatten_of_isDotless h hpaths, ← insertLeaves_leaves h fun leaf hleaf =>
    (hpaths leaf hleaf).isName, expand, List.foldl_map, insertLeaves]
  refine List.foldl_ext _ _ _ fun level leaf hleaf => ?_
  rw [(hpaths leaf hleaf).ofKey_toKey (ne_nil_of_mem_leaves hleaf)]

mutual

theorem isFilled_copied : ∀ v : Value, v.copied.isFilled = v.isFilled
  | .map entries => by
    rw [Value.copied, Value.isFilled, Value.isFilled, entriesFilled_copied entries]
    cases entries with
    | nil => rfl
    | cons entry rest => rfl
  | .object identity content => by
    rw [Value.copied]
    split
    · exact isFilled_copied content
    · rfl
  | .none | .bool _ | .int _ | .float _ | .complex _ | .text _ | .list _ | .tuple _ | .symbol _
  | .undefined | .node _ | .cell .. => rfl

theorem entriesFilled_copied : ∀ entries : List (Value × Value),
    isFilled (copied entries) = isFilled entries
  | [] => rfl
  | (k, v) :: rest => by
    rw [copied, isFilled, isFilled, isFilled_copied v, entriesFilled_copied rest]

end

mutual

/-- Where no mapping is empty, there are leaves everywhere. -/
theorem hasLeaf_of_isFilled : ∀ {v : Value}, v.isFilled = true → v.hasLeaf = true
  | .map [], h => by simp [Value.isFilled] at h
  | .map ((_, v) :: rest), h => by
    rw [Value.isFilled, isFilled, Bool.and_eq_true, Bool.and_eq_true] at h
    rw [Value.hasLeaf, hasLeaf, hasLeaf_of_isFilled h.2.1, Bool.true_or]
  | .object _ content, h => hasLeaf_of_isFilled (v := content) h
  | .none, _ | .bool _, _ | .int _, _ | .float _, _ | .complex _, _ | .text _, _ | .list _, _
  | .tuple _, _ | .symbol _, _ | .undefined, _ | .node _, _ | .cell .., _ => rfl

/-- Where no mapping is empty, nothing is left out. -/
theorem pruned_of_isFilled : ∀ {v : Value}, v.isFilled = true → v.pruned = v
  | .map entries, h => by
    rw [Value.isFilled, Bool.and_eq_true] at h
    rw [Value.pruned, entriesPruned_of_isFilled h.2]
  | .object identity content, h =>
    congrArg (Value.object identity) (pruned_of_isFilled (v := content) h)
  | .none, _ | .bool _, _ | .int _, _ | .float _, _ | .complex _, _ | .text _, _ | .list _, _
  | .tuple _, _ | .symbol _, _ | .undefined, _ | .node _, _ | .cell .., _ => rfl

theorem entriesPruned_of_isFilled : ∀ {entries : List (Value × Value)},
    isFilled entries = true → pruned entries = entries
  | [], _ => rfl
  | (k, v) :: rest, h => by
    rw [isFilled, Bool.and_eq_true] at h
    rw [pruned, hasLeaf_of_isFilled h.1, if_pos rfl, pruned_of_isFilled h.1,
      entriesPruned_of_isFilled h.2]

end

/-- **A nested mapping is found again after flattening.** If each of its levels has different keys,
and on the way to each leaf all keys are texts without points or all are symbols without points,
then expanding its flat form gives the mapping without the nested mappings that have no leaf in
them, with the keys of every level in their order. So it gives the whole mapping if no nested
mapping is empty. The levels are made anew, which makes a difference only where one was an object.
-/
theorem expand_flatten {nested : Mapping} (h : IsOrderly (copied nested))
    (hpaths : ∀ leaf ∈ nested.leaves, Path.IsDotless leaf.1) :
    expand (flattenUnless false nested) = pruned (copied nested) ∧
    (isFilled nested = true → expand (flattenUnless false nested) = copied nested) ∧
    (nested.IsTree → copied nested = nested) := by
  have hexpand : expand (flattenUnless false nested) = pruned (copied nested) := by
    -- flattening sees the leaves only, and they are the same in the levels made anew
    rw [← leaves_copied nested] at hpaths
    rw [flattenUnless_false, ← expand_flatten_of_isOrderly h hpaths, flatten, flatten,
      leaves_copied]
  refine ⟨hexpand, fun hfilled => ?_, copied_of_isTree⟩
  rw [hexpand, entriesPruned_of_isFilled ((entriesFilled_copied nested).trans hfilled)]

/-- A mapping with texts and symbols as keys, with a level that is an object and with mappings that
have no leaf. -/
def withBareLevels : Mapping :=
  [(.text "a", .map [(.text "", .map [(.text "b", .int 1)]), (.text "c", .map [])]),
   (.symbol "a", .object ⟨.given, 0⟩ (.map [(.symbol "b", .int 2), (.symbol "", .none)])),
   (.text "d", .map [(.symbol "e", .map [])]), (.text "", .list [])]

/-- It comes back without the levels below `c` and `d`. -/
theorem expand_flatten_withBareLevels : IsOrderly (copied withBareLevels) ∧
    (∀ leaf ∈ withBareLevels.leaves, Path.IsDotless leaf.1) ∧
    expand (flattenUnless false withBareLevels) =
      [(.text "a", .map [(.text "", .map [(.text "b", .int 1)])]),
       (.symbol "a", .map [(.symbol "b", .int 2), (.symbol "", .none)]), (.text "", .list [])] := by
  have htext (s : String) : (Value.text s).IsSegment := Value.IsName.isSegment ⟨s, .inl rfl⟩
  have hsymbol (s : String) : (Value.symbol s).IsSegment := Value.IsName.isSegment ⟨s, .inr rfl⟩
  have hleaf {v : Value} (hv : v.isMap = false) : v.IsOrderly := .leaf hv
  have hmap (entries : Mapping) : (Value.map entries).IsOrderly ↔ _ := isOrderly_iff
  have horderly : IsOrderly (copied withBareLevels) := by
    show (Value.map (copied withBareLevels)).IsOrderly
    simp [withBareLevels, copied, Value.copied, Value.isMap, Value.entries?, hmap, htext, hsymbol,
      Table.HasApartKeys, Table.keys]
    exact ⟨by decide, hleaf rfl, ⟨hleaf rfl, hleaf rfl⟩, hleaf rfl⟩
  have hpaths : ∀ leaf ∈ withBareLevels.leaves, Path.IsDotless leaf.1 := by
    simp [withBareLevels, leaves, leavesAt, Value.leavesAt, Value.isMap, Value.entries?]
    exact ⟨⟨.text, ["a", "", "b"], .inl rfl, rfl, by decide⟩,
      ⟨.symbol, ["a", "b"], .inr rfl, rfl, by decide⟩,
      ⟨.symbol, ["a", ""], .inr rfl, rfl, by decide⟩, ⟨.text, [""], .inl rfl, rfl, by decide⟩⟩
  exact ⟨horderly, hpaths, (expand_flatten horderly hpaths).1.trans rfl⟩

/-! ### Flattening what was expanded -/

/-- The entries that last are those that no later entry displaces. -/
theorem mem_lasting_iff {flat : Mapping} {entry : Value × Value} : entry ∈ lasting flat ↔
    ∃ before after, flat = before ++ entry :: after ∧
      ∀ later ∈ after, Path.displaces entry.1 later.1 = false := by
  induction flat with
  | nil => simp [lasting]
  | cons first rest ih =>
    have hrest : (∃ before after, first :: rest = before ++ entry :: after ∧
          ∀ later ∈ after, Path.displaces entry.1 later.1 = false) ↔
        (first = entry ∧ ∀ later ∈ rest, Path.displaces entry.1 later.1 = false) ∨
          entry ∈ lasting rest := by
      rw [ih]
      constructor
      · rintro ⟨before, after, hflat, hafter⟩
        rcases List.cons_eq_append_iff.mp hflat with ⟨rfl, h⟩ | ⟨before, rfl, rfl⟩
        · obtain ⟨rfl, rfl⟩ := List.cons.inj h
          exact .inl ⟨rfl, hafter⟩
        · exact .inr ⟨before, after, rfl, hafter⟩
      · rintro (⟨rfl, hafter⟩ | ⟨before, after, rfl, hafter⟩)
        · exact ⟨[], rest, rfl, hafter⟩
        · exact ⟨first :: before, after, rfl, hafter⟩
    -- the first entry lasts just if nothing later displaces it
    rw [hrest, lasting]
    split
    · next hany =>
      obtain ⟨later, hlater, hdisplaces⟩ := List.any_eq_true.mp hany
      refine ⟨.inr, fun h => h.resolve_left ?_⟩
      rintro ⟨rfl, hafter⟩
      rw [hafter later hlater] at hdisplaces
      cases hdisplaces
    · next hany =>
      rw [Bool.not_eq_true, List.any_eq_false] at hany
      rw [List.mem_cons]
      refine or_congr_left ⟨?_, fun h => h.1.symm⟩
      rintro rfl
      exact ⟨rfl, fun later hlater => Bool.not_eq_true _ ▸ hany later hlater⟩

/-- **A flat mapping is found again after expanding**, but for the entries that a later one
displaces. It must have different keys, of which no name carries a mark, and no value that is a
mapping; otherwise the keys may be any texts, symbols and other values. Then flattening the expanded
mapping gives, in some order, just the entries whose key is displaced by no later key, and so all of
them if no key displaces another. -/
theorem flatten_expand_eq_lasting {flat : Mapping} (hapart : Table.HasApartKeys flat)
    (hkeys : ∀ key ∈ Table.keys flat, key.IsSegment)
    (hplain : ∀ entry ∈ flat, entry.2.isMap = false) :
    (flattenUnless false (expand flat)).Perm (lasting flat) ∧
    (∀ entry, entry ∈ flattenUnless false (expand flat) ↔
      ∃ before after, flat = before ++ entry :: after ∧
        ∀ later ∈ after, Path.displaces entry.1 later.1 = false) ∧
    ((Table.keys flat).Pairwise (fun key later => Path.displaces key later = false) →
      (flattenUnless false (expand flat)).Perm flat) := by
  -- an unmarked key is the one that its path is written as
  have hown : ((lasting flat).map fun entry => (Path.toKey (Path.ofKey entry.1), entry.2)) =
      lasting flat := by
    refine (List.map_congr_left fun entry hentry => ?_).trans (List.map_id _)
    obtain ⟨before, after, rfl, -⟩ := mem_lasting_iff.mp hentry
    rw [Path.toKey_ofKey_of_isSegment (hkeys entry.1 (by simp [Table.keys]))]
    rfl
  have hperm : (flattenUnless false (expand flat)).Perm (lasting flat) :=
    hown ▸ flatten_expand hapart hplain
  refine ⟨hperm, fun entry => hperm.mem_iff.trans mem_lasting_iff, fun hnone => ?_⟩
  rwa [lasting_eq_self hnone] at hperm

/-- A flat mapping with keys that displace each other, with keys of several kinds and with empty
segments. -/
def withCollisions : Mapping :=
  [(.text "a.b", .int 1), (.symbol "a.b", .int 2), (.text "a", .int 3), (.text "", .list []),
   (.text "..", .int 4), (.int 5, .none), (.text "a.c.d", .int 6)]

/-- Of the texts below `a` and of those below the empty segment the last ones are left. -/
theorem flatten_expand_withCollisions : Table.HasApartKeys withCollisions ∧
    (∀ key ∈ Table.keys withCollisions, key.IsSegment) ∧
    (∀ entry ∈ withCollisions, entry.2.isMap = false) ∧
    (flattenUnless false (expand withCollisions)).Perm
      [(.symbol "a.b", .int 2), (.text "..", .int 4), (.int 5, .none), (.text "a.c.d", .int 6)] := by
  have hapart : Table.HasApartKeys withCollisions := by
    simp only [Table.HasApartKeys, Table.keys, withCollisions, List.map_cons, List.map_nil]
    decide
  have hkeys : ∀ key ∈ Table.keys withCollisions, key.IsSegment := by
    have hnumber : (Value.int 5).IsSegment := by
      rintro ⟨s, hs | hs⟩
      · cases hs
      · cases hs
    simpa [withCollisions, Table.keys, hnumber] using
      ⟨Value.IsName.isSegment ⟨_, .inl rfl⟩, Value.IsName.isSegment ⟨_, .inr rfl⟩,
        Value.IsName.isSegment ⟨_, .inl rfl⟩, Value.IsName.isSegment ⟨_, .inl rfl⟩,
        Value.IsName.isSegment ⟨_, .inl rfl⟩, Value.IsName.isSegment ⟨_, .inl rfl⟩⟩
  have hplain : ∀ entry ∈ withCollisions, entry.2.isMap = false := by
    simp [withCollisions, Value.isMap, Value.entries?]
  have hlasting : lasting withCollisions =
      [(.symbol "a.b", .int 2), (.text "..", .int 4), (.int 5, .none), (.text "a.c.d", .int 6)] := by
    rfl
  exact ⟨hapart, hkeys, hplain, hlasting ▸ (flatten_expand_eq_lasting hapart hkeys hplain).1⟩

end Mapping

end Formulary
