import Formulary.Proofs.Mapping.Shared
import Mathlib.Data.List.Induction

/-!
# Flattening what was expanded

Expanding puts the values of a flat mapping at the ends of their paths, one after the other. A value
put somewhere takes the place of all that stands in its way: of the value that its path leads on
through, and of the values that lie beyond its end. So what flattening gives back are the entries
that no later one displaces (`Mapping.lasting`), under their own keys (`flatten_expand`).

The induction is over the entries, and for one entry over its path: at each level the leaves under
the first key of the path are replaced and all others stay (`leaves_insertAt`).
-/

namespace Formulary

namespace Table

/-! ### Keys apart -/

section

variable {κ ν : Type} [BEq κ] {t : Table κ ν} {key : κ}

/-- Whether no key of a table is the same as a later one. -/
def HasApartKeys (t : Table κ ν) : Prop := (keys t).Pairwise fun k k' => (k == k') = false

theorem get?_eq_none_of_apart (h : ∀ entry ∈ t, (entry.1 == key) = false) : get? t key = none := by
  induction t with
  | nil => rfl
  | cons entry rest ih =>
    rw [get?, h entry List.mem_cons_self]
    exact ih fun other hother => h other (List.mem_cons_of_mem _ hother)

theorem apart_of_get?_eq_none (h : get? t key = none) : ∀ entry ∈ t, (entry.1 == key) = false := by
  induction t with
  | nil => simp
  | cons entry rest ih =>
    rw [get?] at h
    split at h
    · cases h
    · next hk => exact List.forall_mem_cons.mpr ⟨by simpa using hk, ih h⟩

/-- What comes after entries that do not have a key is where the key is looked up. -/
theorem get?_append_of_get?_eq_none (h : get? t key = none) (back : Table κ ν) :
    get? (t ++ back) key = get? back key := by
  induction t with
  | nil => rfl
  | cons entry rest ih =>
    have hk := apart_of_get?_eq_none h entry List.mem_cons_self
    rw [get?, hk] at h
    rw [List.cons_append, get?, hk, if_neg Bool.false_ne_true, ih h]

/-- What comes after entries that do not have a key is where the key is written. -/
theorem insert_append_of_get?_eq_none (h : get? t key = none) (back : Table κ ν) (value : ν) :
    insert (t ++ back) key value = t ++ insert back key value := by
  induction t with
  | nil => rfl
  | cons entry rest ih =>
    have hk := apart_of_get?_eq_none h entry List.mem_cons_self
    rw [get?, hk] at h
    rw [List.cons_append, insert, hk, if_neg Bool.false_ne_true, ih h]
    rfl

theorem insert_of_get?_eq_none (h : get? t key = none) (value : ν) :
    insert t key value = t ++ [(key, value)] := by
  have hinsert := insert_append_of_get?_eq_none h [] value
  rwa [List.append_nil] at hinsert

/-- A key that is present is so at a first place, where its value is written. -/
theorem exists_append_of_get? {old : ν} (h : get? t key = some old) :
    ∃ front k back, t = front ++ (k, old) :: back ∧ (k == key) = true ∧
      (∀ entry ∈ front, (entry.1 == key) = false) ∧
      ∀ value, insert t key value = front ++ (k, value) :: back := by
  induction t with
  | nil => cases h
  | cons entry rest ih =>
    obtain ⟨k, v⟩ := entry
    rw [get?] at h
    split at h
    · next hk =>
      obtain rfl := Option.some.inj h
      exact ⟨[], k, rest, rfl, hk, by simp, fun value => by simp [insert, hk]⟩
    · next hk =>
      obtain ⟨front, k', back, rfl, hk', hfront, hinsert⟩ := ih h
      refine ⟨(k, v) :: front, k', back, rfl, hk', ?_, fun value => ?_⟩
      · exact List.forall_mem_cons.mpr ⟨by simpa using hk, hfront⟩
      · rw [insert, if_neg hk, hinsert]
        rfl

/-- Writing leaves the keys as they are, or adds the written one at the end. -/
theorem keys_insert_or (t : Table κ ν) (key : κ) (value : ν) :
    keys (insert t key value) = keys t ∨
      get? t key = none ∧ keys (insert t key value) = keys t ++ [key] := by
  rcases hget : get? t key with - | old
  · rw [insert_of_get?_eq_none hget, keys, List.map_append]
    exact .inr ⟨rfl, rfl⟩
  · obtain ⟨front, k, back, rfl, -, -, hinsert⟩ := exists_append_of_get? hget
    rw [hinsert]
    exact .inl (by simp [keys])

theorem HasApartKeys.insert (h : HasApartKeys t) (key : κ) (value : ν) :
    HasApartKeys (insert t key value) := by
  rw [HasApartKeys]
  rcases keys_insert_or t key value with hkeys | ⟨hget, hkeys⟩
  · rw [hkeys]
    exact h
  · rw [hkeys, List.pairwise_append]
    refine ⟨h, List.pairwise_singleton _ _, fun k hk k' hk' => ?_⟩
    obtain ⟨entry, hentry, rfl⟩ := List.mem_map.mp hk
    rw [List.mem_singleton.mp hk']
    exact apart_of_get?_eq_none hget entry hentry

theorem hasApartKeys_insertAll (h : HasApartKeys t) (entries : List (κ × ν)) :
    HasApartKeys (insertAll t entries) := by
  induction entries generalizing t with
  | nil => exact h
  | cons entry rest ih => exact ih (h.insert entry.1 entry.2)

theorem hasApartKeys_ofPairs (entries : List (κ × ν)) : HasApartKeys (ofPairs entries) :=
  hasApartKeys_insertAll (t := []) List.Pairwise.nil entries

theorem insertAll_of_hasApartKeys {entries : List (κ × ν)} (h : HasApartKeys (t ++ entries)) :
    insertAll t entries = t ++ entries := by
  induction entries generalizing t with
  | nil => simp
  | cons entry rest ih =>
    have hnew : get? t entry.1 = none := by
      rw [HasApartKeys, keys, List.map_append, List.pairwise_append] at h
      exact get?_eq_none_of_apart fun other hother =>
        h.2.2 other.1 (List.mem_map_of_mem hother) entry.1 List.mem_cons_self
    rw [insertAll_cons, insert_of_get?_eq_none hnew, ih (by simpa using h)]
    simp

theorem ofPairs_of_hasApartKeys {entries : List (κ × ν)} (h : HasApartKeys entries) :
    ofPairs entries = entries :=
  insertAll_of_hasApartKeys (t := []) h

end

end Table

/-! ### Segments -/

namespace Value

/-- Whether a value can be a segment of a path: a name stands there without a mark. -/
def IsSegment (v : Value) : Prop := v.bare.IsName → v.IsName

variable {v k : Value}

theorem IsName.bare_eq (h : k.IsName) : k.bare = k := by
  obtain ⟨s, rfl | rfl⟩ := h
  · rfl
  · rfl

theorem IsName.isSegment (h : k.IsName) : k.IsSegment := fun _ => h

theorem IsName.same_self (h : k.IsName) : (k == k) = true := by
  obtain ⟨s, rfl | rfl⟩ := h
  · simp
  · simp

/-- A name is the same as a value just if that value names by it. -/
theorem IsName.same_iff (h : k.IsName) : (k == v) = true ↔ v.bare = k := by
  have hobject : k.isSameObject v = false := by
    obtain ⟨s, rfl | rfl⟩ := h
    · rfl
    · rfl
  rw [beq_eq_same, same, hobject, Bool.false_or]
  obtain ⟨s, rfl | rfl⟩ := h
  · rw [equals]
    split
    · next t ht => rw [ht, beq_iff_eq, text.injEq, eq_comm]
    · next hv => simpa using fun hbare => hv s hbare
  · rw [equals]
    split
    · next t ht => rw [ht, beq_iff_eq, symbol.injEq, eq_comm]
    · next hv => simpa using fun hbare => hv s hbare

/-- Among segments a name is the same as itself alone. -/
theorem IsSegment.eq_of_same (hv : v.IsSegment) (hk : k.IsName) (h : (v == k) = true) : v = k := by
  have hbare := hk.bare_of_same h
  rw [← hbare, (hv (hbare.symm ▸ hk)).bare_eq]

theorem IsSegment.eq_of_same_left (hv : v.IsSegment) (hk : k.IsName) (h : (k == v) = true) :
    k = v := by
  have hbare := hk.same_iff.mp h
  rw [← hbare, (hv (hbare.symm ▸ hk)).bare_eq]

end Value

/-! ### Paths and keys -/

namespace Path

theorem isSegment_of_mem_ofKey {key segment : Value} (h : segment ∈ ofKey key) :
    segment.IsSegment := by
  rw [ofKey] at h
  split at h
  · obtain ⟨s, -, rfl⟩ := List.mem_map.mp h
    exact Value.IsName.isSegment ⟨s, .inl rfl⟩
  · obtain ⟨s, -, rfl⟩ := List.mem_map.mp h
    exact Value.IsName.isSegment ⟨s, .inr rfl⟩
  · next htext hsymbol =>
    obtain rfl := List.mem_singleton.mp h
    rintro ⟨s, hs | hs⟩
    · exact absurd hs (htext s)
    · exact absurd hs (hsymbol s)

theorem join_segments (s : String) :
    String.ofList (Text.join separator ((segments s).map String.toList)) = s := by
  have hself : (segments s).map String.toList = Text.split separator s.toList := by
    rw [segments, List.map_map]
    exact (List.map_congr_left fun segment _ => String.toList_ofList).trans (List.map_id _)
  rw [hself, Text.join_split, String.ofList_toList]

/-- A path of texts or of symbols is written as one whose text is that of them joined. -/
theorem toKey_map {name : String → Value} (hname : name = .text ∨ name = .symbol)
    {texts : List String} (hne : texts ≠ []) : toKey (texts.map name) =
      name (String.ofList (Text.join separator (texts.map String.toList))) := by
  rcases texts with - | ⟨first, - | ⟨second, rest⟩⟩
  · exact absurd rfl hne
  · simp [Text.join]
  · rcases hname with rfl | rfl
    · simp [toKey, Value.bare, Function.comp_def]
    · simp [toKey, Value.bare, Function.comp_def]

/-- A text or symbol is what its segments are written as. -/
theorem toKey_segments {name : String → Value} (hname : name = .text ∨ name = .symbol)
    (s : String) : toKey ((segments s).map name) = name s := by
  rw [toKey_map hname (by simp [segments, Text.split_ne_nil]), join_segments]

/-- The key that the path of a key is written as is this key, a name without its mark. -/
theorem toKey_ofKey (key : Value) :
    toKey (ofKey key) = key.bare ∧ key.bare.IsName ∨ ofKey key = [key] ∧ ¬ key.bare.IsName := by
  rw [ofKey]
  split
  · next s hs => exact .inl ⟨by rw [toKey_segments (.inl rfl), hs], s, .inl hs⟩
  · next s hs => exact .inl ⟨by rw [toKey_segments (.inr rfl), hs], s, .inr hs⟩
  · next htext hsymbol =>
    refine .inr ⟨rfl, ?_⟩
    rintro ⟨s, hs | hs⟩
    · exact htext s hs
    · exact hsymbol s hs

theorem bare_toKey_ofKey (key : Value) : (toKey (ofKey key)).bare = key.bare := by
  rcases toKey_ofKey key with ⟨h, hname⟩ | ⟨h, -⟩
  · rw [h, hname.bare_eq]
  · rw [h, toKey_singleton]

/-- Whether one of two paths leads on from the other. -/
def meets (path other : List Value) : Bool := path.isPrefixOf other || other.isPrefixOf path

theorem meets_nil (path : List Value) : meets path [] = true := by simp [meets]

theorem nil_meets (path : List Value) : meets [] path = true := by simp [meets]

theorem meets_cons {key : Value} (h : key.IsName) (path other : List Value) :
    meets (key :: path) (key :: other) = meets path other := by
  simp only [meets, List.isPrefixOf_cons_cons, h.same_self, Bool.true_and]

theorem meets_cons_of_ne {key k : Value} (h : key.IsName) (hk : k.IsSegment) (hne : k ≠ key)
    (path other : List Value) : meets (k :: path) (key :: other) = false := by
  have hapart : (k == key) = false := by
    rw [← Bool.not_eq_true]
    exact fun hsame => hne (hk.eq_of_same h hsame)
  have hapart' : (key == k) = false := by
    rw [← Bool.not_eq_true]
    exact fun hsame => hne (hk.eq_of_same_left h hsame).symm
  simp only [meets, List.isPrefixOf_cons_cons, hapart, hapart', Bool.false_and, Bool.or_false]

end Path

/-! ### Leaves -/

namespace Mapping

mutual

theorem leavesAt_eq_map : ∀ (v : Value) (path : List Value),
    v.leavesAt path = (v.leavesAt []).map fun leaf => (path ++ leaf.1, leaf.2)
  | .map entries, path => by
    simp only [Value.leavesAt]
    exact entriesLeaves_eq_map entries path
  | .object identity content, path => by
    simp only [Value.leavesAt]
    split
    · exact leavesAt_eq_map content path
    · simp
  | .none, path | .bool _, path | .int _, path | .float _, path | .complex _, path
  | .text _, path | .list _, path | .tuple _, path | .symbol _, path | .undefined, path
  | .node _, path | .cell .., path => by simp [Value.leavesAt]

theorem entriesLeaves_eq_map : ∀ (entries : List (Value × Value)) (path : List Value),
    leavesAt path entries = (leavesAt [] entries).map fun leaf => (path ++ leaf.1, leaf.2)
  | [], _ => rfl
  | (k, v) :: rest, path => by
    rw [leavesAt, leavesAt, leavesAt_eq_map v (path ++ [k]), leavesAt_eq_map v ([] ++ [k]),
      entriesLeaves_eq_map rest path]
    simp [Function.comp_def]

end

@[simp] theorem leavesAt_map (entries : Mapping) :
    (Value.map entries).leavesAt [] = leaves entries := by
  rw [Value.leavesAt, leaves]

/-- Leaves one key further down. -/
def under (key : Value) (leaves : List (List Value × Value)) : List (List Value × Value) :=
  leaves.map fun leaf => (key :: leaf.1, leaf.2)

theorem leaves_cons (key v : Value) (rest : Mapping) :
    leaves ((key, v) :: rest) = under key (v.leavesAt []) ++ leaves rest := by
  rw [leaves, leavesAt, leavesAt_eq_map v ([] ++ [key])]
  rfl

theorem leaves_append (front back : Mapping) :
    leaves (front ++ back) = leaves front ++ leaves back := by
  induction front with
  | nil => rfl
  | cons entry front ih =>
    rw [List.cons_append, leaves_cons, leaves_cons, ih, List.append_assoc]

theorem exists_key_of_mem_leaves {entries : Mapping} {leaf : List Value × Value}
    (h : leaf ∈ leaves entries) : ∃ key ∈ Table.keys entries, ∃ path, leaf.1 = key :: path := by
  induction entries with
  | nil => cases h
  | cons entry rest ih =>
    rw [leaves_cons, List.mem_append] at h
    rcases h with h | h
    · obtain ⟨inner, -, rfl⟩ := List.mem_map.mp h
      exact ⟨entry.1, List.mem_cons_self, inner.1, rfl⟩
    · obtain ⟨key, hkey, hleaf⟩ := ih h
      exact ⟨key, List.mem_cons_of_mem _ hkey, hleaf⟩

end Mapping

/-! ### Orderly mappings -/

/-- A nested mapping that is no object at any level, with segments as its keys, no two of them the
same at one level. -/
inductive Value.IsOrderly : Value → Prop
  | leaf {v : Value} (h : v.isMap = false) : IsOrderly v
  | branch {entries : List (Value × Value)} (hapart : Table.HasApartKeys entries)
      (hsegments : ∀ key ∈ Table.keys entries, key.IsSegment)
      (h : ∀ entry ∈ entries, IsOrderly entry.2) : IsOrderly (.map entries)

namespace Mapping

/-- A nested mapping that is orderly at every level. -/
def IsOrderly (entries : Mapping) : Prop := (Value.map entries).IsOrderly

theorem isOrderly_iff {entries : Mapping} : entries.IsOrderly ↔ Table.HasApartKeys entries ∧
    (∀ key ∈ Table.keys entries, key.IsSegment) ∧ ∀ entry ∈ entries, entry.2.IsOrderly := by
  constructor
  · intro h
    cases h with
    | leaf h => cases h
    | branch hapart hsegments h => exact ⟨hapart, hsegments, h⟩
  · rintro ⟨hapart, hsegments, h⟩
    exact .branch hapart hsegments h

theorem isOrderly_nil : IsOrderly [] :=
  isOrderly_iff.mpr ⟨List.Pairwise.nil, by simp [Table.keys], by simp⟩

namespace IsOrderly

variable {entries : Mapping}

/-- What a key holds is a leaf, or an orderly mapping. -/
theorem of_get? (h : entries.IsOrderly) {key v : Value} (hv : Table.get? entries key = some v) :
    v.isMap = false ∨ ∃ inner : Mapping, v = .map inner ∧ inner.IsOrderly := by
  obtain ⟨k, hk⟩ := Table.exists_mem_of_get? hv
  have horderly := (isOrderly_iff.mp h).2.2 _ hk
  cases horderly with
  | leaf h => exact .inl h
  | branch hapart hsegments h => exact .inr ⟨_, rfl, .branch hapart hsegments h⟩

theorem child (h : entries.IsOrderly) (key : Value) : (child entries key).IsOrderly := by
  rw [Mapping.child]
  rcases hv : Table.get? entries key with - | v
  · exact isOrderly_nil
  · rcases h.of_get? hv with hleaf | ⟨inner, rfl, hinner⟩
    · have hnone : v.entries? = none := by simpa [Value.isMap] using hleaf
      simpa [hnone] using isOrderly_nil
    · exact hinner

theorem insert (h : entries.IsOrderly) {key v : Value} (hkey : key.IsSegment) (hv : v.IsOrderly) :
    IsOrderly (Table.insert entries key v) := by
  obtain ⟨hapart, hsegments, hvalues⟩ := isOrderly_iff.mp h
  refine isOrderly_iff.mpr ⟨hapart.insert key v, ?_, ?_⟩
  · rcases Table.keys_insert_or entries key v with hkeys | ⟨-, hkeys⟩
    · rw [hkeys]
      exact hsegments
    · rw [hkeys]
      exact List.forall_mem_append.mpr ⟨hsegments, List.forall_mem_singleton.mpr hkey⟩
  · intro entry hentry
    rcases Table.mem_insert hentry with hentry | hentry
    · exact hvalues entry hentry
    · rw [hentry]
      exact hv

theorem insertAt (h : entries.IsOrderly) {path : List Value} {v : Value}
    (hpath : ∀ key ∈ path, key.IsSegment) (hv : v.IsOrderly) :
    (insertAt entries path v).IsOrderly := by
  induction path generalizing entries with
  | nil => exact h
  | cons key rest ih =>
    have hrest := fun k hk => hpath k (List.mem_cons_of_mem _ hk)
    cases rest with
    | nil => exact h.insert (hpath key List.mem_cons_self) hv
    | cons next rest => exact h.insert (hpath key List.mem_cons_self) (ih (h.child key) hrest)

/-- A key that names stands in an orderly mapping itself, or not at all. -/
theorem exists_append (h : entries.IsOrderly) {key old : Value} (hkey : key.IsName)
    (hold : Table.get? entries key = some old) : ∃ front back : Mapping,
      entries = front ++ (key, old) :: back ∧
      (∀ k ∈ Table.keys (front ++ back), k.IsSegment ∧ k ≠ key) ∧
      ∀ v, Table.insert entries key v = front ++ (key, v) :: back := by
  obtain ⟨front, k, back, rfl, hk, hfront, hinsert⟩ := Table.exists_append_of_get? hold
  obtain ⟨hapart, hsegments, -⟩ := isOrderly_iff.mp h
  obtain rfl : k = key := (hsegments k (by simp [Table.keys])).eq_of_same hkey hk
  refine ⟨front, back, rfl, fun other hother => ?_, hinsert⟩
  rw [Table.keys, List.map_append, List.mem_append] at hother
  refine ⟨hsegments other ?_, ?_⟩
  · rw [Table.keys, List.map_append, List.map_cons, List.mem_append, List.mem_cons]
    exact hother.imp_right .inr
  · rintro rfl
    rcases hother with hother | hother
    · obtain ⟨entry, hentry, rfl⟩ := List.mem_map.mp hother
      exact Bool.false_ne_true ((hfront entry hentry).symm.trans hk)
    · rw [Table.HasApartKeys, Table.keys, List.map_append, List.map_cons] at hapart
      have := (List.pairwise_append.mp hapart).2.1
      exact Bool.false_ne_true (((List.pairwise_cons.mp this).1 other hother).symm.trans hk)

end IsOrderly

/-! ### Writing a leaf -/

/-- The leaves that a path does not meet. -/
def apartFrom (path : List Value) (leaves : List (List Value × Value)) :
    List (List Value × Value) :=
  leaves.filter fun leaf => !Path.meets leaf.1 path

theorem apartFrom_append (path : List Value) (front back : List (List Value × Value)) :
    apartFrom path (front ++ back) = apartFrom path front ++ apartFrom path back :=
  List.filter_append _ _

theorem apartFrom_under {key : Value} (h : key.IsName) (path : List Value)
    (leaves : List (List Value × Value)) :
    apartFrom (key :: path) (under key leaves) = under key (apartFrom path leaves) := by
  rw [apartFrom, under, List.filter_map]
  simp only [Function.comp_def, Path.meets_cons h]
  rfl

/-- Under other keys no leaf is met. -/
theorem apartFrom_leaves {key : Value} (h : key.IsName) {entries : Mapping}
    (hkeys : ∀ k ∈ Table.keys entries, k.IsSegment ∧ k ≠ key) (path : List Value) :
    apartFrom (key :: path) (leaves entries) = leaves entries := by
  refine List.filter_eq_self.mpr fun leaf hleaf => ?_
  obtain ⟨k, hk, rest, hpath⟩ := exists_key_of_mem_leaves hleaf
  rw [hpath, Path.meets_cons_of_ne h (hkeys k hk).1 (hkeys k hk).2]
  rfl

/-- Under one key: the leaves of what it holds are replaced, and all others stay. -/
theorem leaves_insert {entries : Mapping} (h : entries.IsOrderly) {key : Value} (hkey : key.IsName)
    {path : List Value} {new v : Value}
    (hnew : (new.leavesAt []).Perm (apartFrom path
      (((Table.get? entries key).map (·.leavesAt [])).getD []) ++ [(path, v)])) :
    (leaves (Table.insert entries key new)).Perm
      (apartFrom (key :: path) (leaves entries) ++ [(key :: path, v)]) := by
  rcases hget : Table.get? entries key with - | old
  · rw [hget] at hnew
    have hkeys : ∀ k ∈ Table.keys entries, k.IsSegment ∧ k ≠ key := by
      intro k hk
      refine ⟨(isOrderly_iff.mp h).2.1 k hk, ?_⟩
      rintro rfl
      obtain ⟨entry, hentry, rfl⟩ := List.mem_map.mp hk
      have := Table.apart_of_get?_eq_none hget entry hentry
      exact Bool.false_ne_true (this.symm.trans hkey.same_self)
    rw [Table.insert_of_get?_eq_none hget, leaves_append, leaves_cons, leaves_nil, List.append_nil,
      apartFrom_leaves hkey hkeys]
    exact (hnew.map _).append_left _
  · rw [hget] at hnew
    obtain ⟨front, back, rfl, hkeys, hinsert⟩ := h.exists_append hkey hget
    rw [Table.keys, List.map_append, List.forall_mem_append] at hkeys
    rw [hinsert, leaves_append, leaves_append, leaves_cons, leaves_cons, apartFrom_append,
      apartFrom_append, apartFrom_leaves hkey hkeys.1, apartFrom_leaves hkey hkeys.2,
      apartFrom_under hkey]
    refine (((hnew.map _).append_right _).append_left _).trans ?_
    rw [List.map_append]
    -- the new leaf moves behind those of the later keys
    simp only [List.append_assoc]
    exact (List.perm_append_comm.append_left _).append_left _

/-- **Writing a leaf**: the leaves that its path meets are gone, and all others stay. -/
theorem leaves_insertAt {entries : Mapping} (h : entries.IsOrderly) {path : List Value}
    (hne : path ≠ []) (hpath : ∀ key ∈ path, key.IsName) {v : Value} (hv : v.isMap = false) :
    (leaves (insertAt entries path v)).Perm (apartFrom path (leaves entries) ++ [(path, v)]) := by
  induction path generalizing entries with
  | nil => exact absurd rfl hne
  | cons key rest ih =>
    have hkey := hpath key List.mem_cons_self
    have hrest := fun k hk => hpath k (List.mem_cons_of_mem _ hk)
    cases rest with
    | nil =>
      refine leaves_insert h hkey ?_
      -- every leaf under the key is met where the path ends
      rw [leavesAt_of_not_isMap hv, apartFrom,
        List.filter_eq_nil_iff.mpr (by simp [Path.meets_nil])]
      exact List.Perm.refl _
    | cons next rest =>
      refine leaves_insert h hkey ?_
      have hchild := ih (h.child key) (by simp) hrest
      rcases hget : Table.get? entries key with - | old
      · simpa [child, hget] using hchild
      · rcases h.of_get? hget with hleaf | ⟨inner, rfl, -⟩
        · -- a leaf in the way is met where it is
          have hnone : old.entries? = none := by simpa [Value.isMap] using hleaf
          simp only [child, hget, Option.bind_some, hnone] at hchild ⊢
          simpa [leavesAt_of_not_isMap hleaf, apartFrom, Path.nil_meets] using hchild
        · simpa [child, hget, Value.entries?] using hchild

end Mapping

/-! ### Expanding -/

/-- Whether one of two keys displaces the other when they are expanded: both are texts or both are
symbols, and the path of one leads on from the other's. -/
def Path.displaces (key other : Value) : Bool :=
  match key.bare, other.bare with
  | .text s, .text t | .symbol s, .symbol t =>
    (segments s).isPrefixOf (segments t) || (segments t).isPrefixOf (segments s)
  | _, _ => false

/-- The entries of a flat mapping that no later one displaces. -/
def Mapping.lasting : Mapping → Mapping
  | [] => []
  | entry :: rest =>
    if rest.any (Path.displaces entry.1 ·.1) then lasting rest else entry :: lasting rest

namespace Path

theorem isPrefixOf_map {name : String → Value} (hname : ∀ s t, (name s == name t) = (s == t))
    (texts others : List String) :
    (texts.map name).isPrefixOf (others.map name) = texts.isPrefixOf others := by
  induction texts generalizing others with
  | nil => rfl
  | cons s texts ih =>
    cases others with
    | nil => rfl
    | cons t others =>
      rw [List.map_cons, List.map_cons, List.isPrefixOf_cons_cons, List.isPrefixOf_cons_cons,
        hname, ih]

/-- Paths that have no segment in common do not meet. -/
theorem meets_eq_false {path other : List Value} (hne : path ≠ []) (hne' : other ≠ [])
    (hpath : ∀ key ∈ path, key.IsSegment) (hother : ∀ key ∈ other, key.IsName)
    (h : ∀ key ∈ path, key ∉ other) : meets path other = false := by
  rcases path with - | ⟨k, path⟩
  · exact absurd rfl hne
  rcases other with - | ⟨key, other⟩
  · exact absurd rfl hne'
  refine meets_cons_of_ne (hother key List.mem_cons_self) (hpath k List.mem_cons_self) ?_ path other
  rintro rfl
  exact h k List.mem_cons_self List.mem_cons_self

theorem isName_of_mem_ofKey {key segment : Value} (h : key.bare.IsName)
    (hsegment : segment ∈ ofKey key) : segment.IsName := by
  obtain ⟨s, hs | hs⟩ := h
  · rw [ofKey, hs] at hsegment
    obtain ⟨t, -, rfl⟩ := List.mem_map.mp hsegment
    exact ⟨t, .inl rfl⟩
  · rw [ofKey, hs] at hsegment
    obtain ⟨t, -, rfl⟩ := List.mem_map.mp hsegment
    exact ⟨t, .inr rfl⟩

/-- A text among the segments of a key makes the key a text, and a symbol makes it a symbol. -/
theorem bare_of_mem_ofKey {name : String → Value} (hname : name = .text ∨ name = .symbol)
    {key : Value} {t : String} (h : name t ∈ ofKey key) : ∃ s, key.bare = name s := by
  rw [ofKey] at h
  split at h
  · next s hs =>
    obtain ⟨x, -, hx⟩ := List.mem_map.mp h
    rcases hname with rfl | rfl
    · exact ⟨s, hs⟩
    · cases hx
  · next s hs =>
    obtain ⟨x, -, hx⟩ := List.mem_map.mp h
    rcases hname with rfl | rfl
    · cases hx
    · exact ⟨s, hs⟩
  · rw [← List.mem_singleton.mp h]
    rcases hname with rfl | rfl
    · exact ⟨t, rfl⟩
    · exact ⟨t, rfl⟩

/-- The path of a key meets that of a name just if one displaces the other. -/
theorem meets_ofKey {key other : Value} (h : other.bare.IsName) :
    meets (ofKey key) (ofKey other) = displaces key other := by
  rw [displaces]
  split
  · next s t hs ht =>
    rw [ofKey, ofKey, hs, ht, meets, isPrefixOf_map Value.same_text, isPrefixOf_map Value.same_text]
  · next s t hs ht =>
    rw [ofKey, ofKey, hs, ht, meets, isPrefixOf_map Value.same_symbol,
      isPrefixOf_map Value.same_symbol]
  · next htext hsymbol =>
    refine meets_eq_false (ofKey_ne_nil key) (ofKey_ne_nil other)
      (fun k hk => isSegment_of_mem_ofKey hk) (fun k hk => isName_of_mem_ofKey h hk) ?_
    intro k hk hother
    obtain ⟨t, ht | ht⟩ := h
    · rw [ofKey, ht] at hother
      obtain ⟨x, -, rfl⟩ := List.mem_map.mp hother
      obtain ⟨s, hs⟩ := bare_of_mem_ofKey (.inl rfl) hk
      exact htext s t hs ht
    · rw [ofKey, ht] at hother
      obtain ⟨x, -, rfl⟩ := List.mem_map.mp hother
      obtain ⟨s, hs⟩ := bare_of_mem_ofKey (.inr rfl) hk
      exact hsymbol s t hs ht

end Path

namespace Mapping

theorem lasting_concat (flat : Mapping) (entry : Value × Value) :
    lasting (flat ++ [entry]) =
      (lasting flat).filter (fun other => !Path.displaces other.1 entry.1) ++ [entry] := by
  induction flat with
  | nil => rfl
  | cons first rest ih =>
    rw [List.cons_append, lasting, lasting, List.any_append, ih]
    rcases hany : rest.any (Path.displaces first.1 ·.1) with - | -
    · rcases hlast : Path.displaces first.1 entry.1 with - | -
      · simp [hlast]
      · simp [hlast]
    · simp

theorem lasting_eq_self {flat : Mapping}
    (h : (Table.keys flat).Pairwise fun key later => Path.displaces key later = false) :
    lasting flat = flat := by
  induction flat with
  | nil => rfl
  | cons entry rest ih =>
    obtain ⟨hentry, hrest⟩ := List.pairwise_cons.mp h
    have hany : rest.any (Path.displaces entry.1 ·.1) = false := by
      simpa using fun key v hkey => hentry key (List.mem_map_of_mem (f := Prod.fst) hkey)
    rw [lasting, hany, if_neg Bool.false_ne_true, ih hrest]

theorem expand_concat (flat : Mapping) (entry : Value × Value) :
    expand (flat ++ [entry]) = insertAt (expand flat) (Path.ofKey entry.1) entry.2 :=
  List.foldl_append

theorem mem_keys_insertAt {entries : Mapping} {path : List Value} {v key : Value}
    (h : key ∈ Table.keys (insertAt entries path v)) :
    key ∈ Table.keys entries ∨ path.head? = some key := by
  have hinsert : ∀ first w, key ∈ Table.keys (Table.insert entries first w) →
      key ∈ Table.keys entries ∨ some first = some key := by
    intro first w hkey
    rcases Table.keys_insert_or entries first w with hkeys | ⟨-, hkeys⟩
    · exact .inl (hkeys ▸ hkey)
    · rw [hkeys, List.mem_append, List.mem_singleton] at hkey
      exact hkey.imp_right fun heq => congrArg some heq.symm
  match path, h with
  | [], h => exact .inl h
  | [first], h => exact hinsert first _ h
  | first :: next :: rest, h => exact hinsert first _ h

/-- A key that is no name displaces nothing. -/
theorem filter_displaces_of_not_isName {key : Value} (h : ¬ key.bare.IsName) (flat : Mapping) :
    flat.filter (fun other => !Path.displaces other.1 key) = flat := by
  refine List.filter_eq_self.mpr fun other _ => ?_
  rw [Path.displaces]
  split
  · next s t _ ht => exact absurd ⟨t, .inl ht⟩ h
  · next s t _ ht => exact absurd ⟨t, .inr ht⟩ h
  · rfl

/-- A key that is no name, and that no other key is the same as, has no value among the first keys
of their paths. -/
theorem get?_eq_none_of_heads {entries flat : Mapping} {key : Value} (h : ¬ key.bare.IsName)
    (hkeys : ∀ other ∈ Table.keys entries, ∃ entry ∈ flat,
      (Path.ofKey entry.1).head? = some other)
    (hapart : ∀ other ∈ Table.keys flat, (other == key) = false) :
    Table.get? entries key = none := by
  refine Table.get?_eq_none_of_apart fun other hother => ?_
  obtain ⟨first, hfirst, hhead⟩ := hkeys other.1 (List.mem_map_of_mem hother)
  rcases Path.toKey_ofKey first.1 with ⟨-, hfirstName⟩ | ⟨hsingle, -⟩
  · have hother := Path.isName_of_mem_ofKey hfirstName (List.mem_of_mem_head? hhead)
    rw [← Bool.not_eq_true, hother.same_iff]
    exact fun hbare => h (hbare ▸ hother)
  · rw [hsingle] at hhead
    rw [← Option.some.inj hhead]
    exact hapart first.1 (List.mem_map_of_mem hfirst)

/-- **Expanding keeps the entries that no later one displaces**, each as a leaf at its path. -/
theorem leaves_expand {flat : Mapping} (hapart : Table.HasApartKeys flat)
    (hplain : ∀ entry ∈ flat, entry.2.isMap = false) :
    (expand flat).IsOrderly ∧
    (∀ key ∈ Table.keys (expand flat), ∃ entry ∈ flat, (Path.ofKey entry.1).head? = some key) ∧
    (expand flat).leaves.Perm ((lasting flat).map fun entry => (Path.ofKey entry.1, entry.2)) := by
  induction flat using List.reverseRecOn with
  | nil => exact ⟨isOrderly_nil, by simp [expand, Table.keys], List.Perm.refl _⟩
  | append_singleton flat entry ih =>
    rw [Table.HasApartKeys, Table.keys, List.map_append, List.pairwise_append] at hapart
    obtain ⟨hbefore, hentry⟩ := List.forall_mem_append.mp hplain
    have hv := List.forall_mem_singleton.mp hentry
    obtain ⟨horderly, hkeys, hleaves⟩ := ih hapart.1 hbefore
    rw [expand_concat, lasting_concat]
    refine ⟨horderly.insertAt (fun _ => Path.isSegment_of_mem_ofKey) (.leaf hv), ?_, ?_⟩
    · intro key hkey
      rcases mem_keys_insertAt hkey with hkey | hkey
      · obtain ⟨other, hother, hhead⟩ := hkeys key hkey
        exact ⟨other, List.mem_append_left _ hother, hhead⟩
      · exact ⟨entry, List.mem_append_right _ (List.mem_singleton_self entry), hkey⟩
    rw [List.map_append]
    by_cases hname : entry.1.bare.IsName
    · refine (leaves_insertAt horderly (Path.ofKey_ne_nil _)
        (fun _ => Path.isName_of_mem_ofKey hname) hv).trans (List.Perm.append_right _ ?_)
      refine (hleaves.filter _).trans ?_
      rw [List.filter_map]
      simp only [Function.comp_def, Path.meets_ofKey hname]
      exact List.Perm.refl _
    · -- a key that does not name is written where none is the same
      have hpath : Path.ofKey entry.1 = [entry.1] :=
        ((Path.toKey_ofKey entry.1).resolve_left fun h => hname h.2).1
      have hnew : Table.get? (expand flat) entry.1 = none :=
        get?_eq_none_of_heads hname hkeys fun other hother =>
          hapart.2.2 other hother entry.1 List.mem_cons_self
      rw [filter_displaces_of_not_isName hname, hpath, insertAt,
        Table.insert_of_get?_eq_none hnew, leaves_append, leaves_cons, leavesAt_of_not_isMap hv]
      simpa [under, hpath] using hleaves.append_right [([entry.1], entry.2)]

/-! ### Flattening again -/

theorem pairwise_leaves_of_forall {entries : Mapping} (hapart : Table.HasApartKeys entries)
    (h : ∀ entry ∈ entries,
      (entry.2.leavesAt []).Pairwise fun leaf other => (leaf.1 == other.1) = false) :
    (leaves entries).Pairwise fun leaf other => (leaf.1 == other.1) = false := by
  induction entries with
  | nil => exact List.Pairwise.nil
  | cons entry rest ih =>
    obtain ⟨hentry, hrest⟩ := List.pairwise_cons.mp hapart
    obtain ⟨hfirst, hothers⟩ := List.forall_mem_cons.mp h
    rw [leaves_cons, List.pairwise_append]
    refine ⟨List.pairwise_map.mpr (hfirst.imp fun hne => ?_), ih hrest hothers, ?_⟩
    · rw [List.cons_beq_cons, hne, Bool.and_false]
    · intro leaf hleaf other hother
      obtain ⟨inner, -, rfl⟩ := List.mem_map.mp hleaf
      obtain ⟨key, hkey, path, hpath⟩ := exists_key_of_mem_leaves hother
      rw [hpath, List.cons_beq_cons, hentry key hkey, Bool.false_and]

/-- No two leaves of an orderly mapping have the same path. -/
theorem pairwise_leavesAt {v : Value} (h : v.IsOrderly) :
    (v.leavesAt []).Pairwise fun leaf other => (leaf.1 == other.1) = false := by
  induction h with
  | leaf h =>
    rw [leavesAt_of_not_isMap h]
    exact List.pairwise_singleton _ _
  | branch hapart _ _ ih =>
    rw [leavesAt_map]
    exact pairwise_leaves_of_forall hapart ih

end Mapping

namespace Path

/-- Different paths of keys are written as different keys. -/
theorem toKey_apart {key other : Value} (h : (ofKey key == ofKey other) = false) :
    (toKey (ofKey key) == toKey (ofKey other)) = false := by
  have hsame : key.bare.IsName → key.bare ≠ other.bare := by
    intro hname hbare
    have hself : ∀ path : List Value, (∀ k ∈ path, k.IsName) → (path == path) = true := by
      intro path hpath
      induction path with
      | nil => rfl
      | cons k path ih =>
        rw [List.cons_beq_cons, (hpath k List.mem_cons_self).same_self,
          ih fun k hk => hpath k (List.mem_cons_of_mem _ hk)]
        rfl
    have hpath : ofKey other = ofKey key := by
      obtain ⟨s, hs | hs⟩ := hname
      · rw [ofKey, ofKey, ← hbare, hs]
      · rw [ofKey, ofKey, ← hbare, hs]
    rw [hpath, hself _ fun k => isName_of_mem_ofKey hname] at h
    cases h
  rw [← Bool.not_eq_true]
  intro htrue
  -- a key that is a name is joined again to its own text, and any other key stays as it is
  rcases toKey_ofKey key with ⟨hkey, hname⟩ | ⟨hkey, hname⟩
  · rw [hkey, hname.same_iff, bare_toKey_ofKey] at htrue
    exact hsame hname htrue.symm
  · rcases toKey_ofKey other with ⟨hother, hname'⟩ | ⟨hother, -⟩
    · rw [hother] at htrue
      have hbare := hname'.bare_of_same htrue
      rw [bare_toKey_ofKey] at hbare
      exact hname (hbare ▸ hname')
    · rw [hkey, hother, toKey_singleton, toKey_singleton] at htrue
      rw [hkey, hother, List.cons_beq_cons, htrue] at h
      cases h

end Path

namespace Mapping

/-- **Flattening an expanded mapping** gives the entries that no later one displaces, each under its
own key. -/
theorem flatten_expand {flat : Mapping} (hapart : Table.HasApartKeys flat)
    (hplain : ∀ entry ∈ flat, entry.2.isMap = false) :
    (expand flat).flatten.Perm
      ((lasting flat).map fun entry => (Path.toKey (Path.ofKey entry.1), entry.2)) := by
  obtain ⟨horderly, -, hleaves⟩ := leaves_expand hapart hplain
  have hpaths := pairwise_leavesAt horderly
  rw [leavesAt_map] at hpaths
  have hkeys : Table.HasApartKeys
      ((expand flat).leaves.map fun leaf => (Path.toKey leaf.1, leaf.2)) := by
    rw [Table.HasApartKeys, Table.keys, List.map_map, List.pairwise_map]
    refine hpaths.imp_of_mem fun {leaf other} hleaf hother hne => ?_
    obtain ⟨entry, -, rfl⟩ := List.mem_map.mp (hleaves.mem_iff.mp hleaf)
    obtain ⟨entry', -, rfl⟩ := List.mem_map.mp (hleaves.mem_iff.mp hother)
    exact Path.toKey_apart hne
  rw [flatten, Table.ofPairs_of_hasApartKeys hkeys]
  simpa [Function.comp_def] using hleaves.map fun leaf => (Path.toKey leaf.1, leaf.2)

end Mapping

end Formulary
