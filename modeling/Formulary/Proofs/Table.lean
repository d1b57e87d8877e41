import Formulary.Mapping.Shared
import Mathlib.Data.List.Induction
import Mathlib.Data.List.Perm.Subperm
import Mathlib.Tactic.Common

/-!
# Tables as finite maps

What a table answers after several writes, and when writing changes nothing but the answers. A
mapping whose keys are texts is a table by names (`Mapping.ofNames`): reading, writing and
flattening it are reading and writing that table.

Main results: `get?_insertAll` (several writes of different keys are one overlay),
`flatten_ofNames` (a flat mapping by names is its own flat form) and `expandShared_ofNames` (without
points in its names it is its own nested form too).
-/

namespace Formulary

namespace Table

variable {κ ν : Type} [BEq κ] [LawfulBEq κ]

/-! ### Presence -/

theorem get?_eq_none_iff {t : Table κ ν} {key : κ} : get? t key = none ↔ key ∉ keys t := by
  induction t with
  | nil => simp [keys]
  | cons entry rest ih =>
    obtain ⟨k, v⟩ := entry
    by_cases hk : k = key
    · subst hk
      simp [get?, keys]
    · have hne : ¬ key = k := fun h => hk h.symm
      simp only [keys] at ih
      simp [get?, keys, hk, hne, ih]

theorem exists_get?_of_mem {t : Table κ ν} {key : κ} (h : key ∈ keys t) :
    ∃ value, get? t key = some value := by
  rcases e : get? t key with - | value
  · exact absurd h (get?_eq_none_iff.mp e)
  · exact ⟨value, rfl⟩

theorem mem_keys_of_get? {t : Table κ ν} {key : κ} {value : ν} (h : get? t key = some value) :
    key ∈ keys t := by
  by_contra hk
  rw [get?_eq_none_iff.mpr hk] at h
  cases h

theorem mem_of_get? {t : Table κ ν} {key : κ} {value : ν} (h : get? t key = some value) :
    (key, value) ∈ t := by
  induction t with
  | nil => cases h
  | cons entry rest ih =>
    obtain ⟨k, v⟩ := entry
    rw [get?] at h
    split at h
    · next hk =>
      obtain rfl := Option.some.inj h
      rw [eq_of_beq hk]
      exact List.mem_cons_self
    · exact List.mem_cons_of_mem _ (ih h)

theorem get?_of_mem {t : Table κ ν} (ht : (keys t).Nodup) {key : κ} {value : ν}
    (h : (key, value) ∈ t) : get? t key = some value := by
  induction t with
  | nil => cases h
  | cons entry rest ih =>
    obtain ⟨k, v⟩ := entry
    simp only [keys, List.map_cons, List.nodup_cons] at ht
    rcases List.mem_cons.1 h with h | h
    · obtain ⟨rfl, rfl⟩ := Prod.mk.injEq .. ▸ h
      simp [get?]
    · have hne : k ≠ key := by
        rintro rfl
        exact ht.1 (List.mem_map_of_mem (f := Prod.fst) h)
      have := ih ht.2 h
      simpa [get?, hne] using this

/-! ### Writing -/

theorem insert_of_not_mem {t : Table κ ν} {key : κ} (h : key ∉ keys t) (value : ν) :
    insert t key value = t ++ [(key, value)] := by
  induction t with
  | nil => rfl
  | cons entry rest ih =>
    obtain ⟨k, v⟩ := entry
    simp only [keys, List.map_cons, List.mem_cons, not_or] at h
    have hne : (k == key) = false := by
      rw [beq_eq_false_iff_ne]
      exact fun hk => h.1 hk.symm
    rw [insert, hne, if_neg (by simp), ih h.2]
    rfl

theorem insert_insert (t : Table κ ν) (key : κ) (first second : ν) :
    insert (insert t key first) key second = insert t key second := by
  induction t with
  | nil => simp [insert]
  | cons entry rest ih =>
    obtain ⟨k, v⟩ := entry
    by_cases hk : k = key
    · subst hk
      simp [insert]
    · simp [insert, hk, ih]

omit [LawfulBEq κ] in
/-- Writing what is there anyway changes nothing. -/
theorem insert_of_get? {t : Table κ ν} {key : κ} {value : ν} (h : get? t key = some value) :
    insert t key value = t := by
  induction t with
  | nil => cases h
  | cons entry rest ih =>
    rw [get?] at h
    rw [insert]
    split at h
    · next hk =>
      obtain rfl := Option.some.inj h
      rw [if_pos hk]
    · next hk => rw [if_neg hk, ih h]

theorem mem_keys_insert {t : Table κ ν} {key other : κ} {value : ν} :
    other ∈ keys (insert t key value) ↔ other = key ∨ other ∈ keys t := by
  rw [keys_insert]
  split
  · next hmem =>
    refine ⟨.inr, ?_⟩
    rintro (rfl | hother)
    · exact hmem
    · exact hother
  · rw [List.mem_append, List.mem_singleton, or_comm]

theorem has_insert (t : Table κ ν) (key other : κ) (value : ν) :
    has (insert t key value) other = (key == other || has t other) := by
  rw [has, get?_insert]
  split
  · next hk => simp [hk]
  · next hk => simp [hk, has]

omit [LawfulBEq κ] in
theorem length_le_length_insert (t : Table κ ν) (key : κ) (value : ν) :
    t.length ≤ (insert t key value).length := by
  induction t with
  | nil => exact Nat.zero_le _
  | cons entry rest ih =>
    rw [insert]
    split
    · exact Nat.le_refl _
    · exact Nat.succ_le_succ ih

/-- Writing what is there anyway loses nothing. -/
theorem mem_insert_getD {t : Table κ ν} {entry : κ × ν} (h : entry ∈ t) (key : κ) (value : ν) :
    entry ∈ insert t key ((get? t key).getD value) := by
  induction t with
  | nil => cases h
  | cons first rest ih =>
    obtain ⟨k, v⟩ := first
    by_cases hk : k = key
    · subst hk
      simpa [insert, get?] using h
    · rw [insert, get?, if_neg (by simpa using hk), if_neg (by simpa using hk)]
      rcases List.mem_cons.1 h with rfl | h
      · exact List.mem_cons_self
      · exact List.mem_cons_of_mem _ (ih h)

theorem mem_or_eq_of_mem_insert {t : Table κ ν} {key : κ} {value : ν} {entry : κ × ν}
    (h : entry ∈ insert t key value) : entry ∈ t ∨ entry = (key, value) := by
  induction t with
  | nil => exact .inr (List.mem_singleton.mp h)
  | cons first rest ih =>
    rw [insert] at h
    split at h
    · next hk =>
      rcases List.mem_cons.1 h with rfl | h
      · exact .inr (by rw [eq_of_beq hk])
      · exact .inl (List.mem_cons_of_mem _ h)
    · rcases List.mem_cons.1 h with rfl | h
      · exact .inl List.mem_cons_self
      · exact (ih h).imp_left (List.mem_cons_of_mem _)

/-- Several writes of different keys lay one table over another. -/
theorem get?_insertAll (t : Table κ ν) {entries : List (κ × ν)}
    (h : (keys entries).Nodup) (key : κ) :
    get? (insertAll t entries) key = (get? entries key).or (get? t key) := by
  induction entries generalizing t with
  | nil => simp
  | cons entry rest ih =>
    obtain ⟨k, v⟩ := entry
    simp only [keys, List.map_cons, List.nodup_cons] at h
    rw [insertAll_cons, ih _ h.2, get?_insert]
    by_cases hk : k = key
    · subst hk
      rw [get?_eq_none_iff.mpr h.1]
      simp [get?]
    · simp [get?, hk]

omit [LawfulBEq κ] in
theorem mem_insertAll {t : Table κ ν} {entries : List (κ × ν)} {entry : κ × ν}
    (h : entry ∈ insertAll t entries) : entry ∈ t ∨ ∃ written ∈ entries, entry.2 = written.2 := by
  induction entries generalizing t with
  | nil => exact .inl h
  | cons first rest ih =>
    rcases ih h with h | ⟨written, hw, heq⟩
    · exact (mem_insert h).imp_right fun heq => ⟨first, List.mem_cons_self, heq⟩
    · exact .inr ⟨written, List.mem_cons_of_mem _ hw, heq⟩

theorem get?_insertAll_or {t : Table κ ν} {entries : List (κ × ν)} {key : κ} {value : ν}
    (h : get? (insertAll t entries) key = some value) :
    get? t key = some value ∨ ∃ entry ∈ entries, entry.1 = key ∧ entry.2 = value := by
  induction entries generalizing t with
  | nil => exact .inl h
  | cons first rest ih =>
    rcases ih h with h | ⟨entry, hentry, heq⟩
    · rw [get?_insert] at h
      split at h
      · next hk => exact .inr ⟨first, List.mem_cons_self, eq_of_beq hk, Option.some.inj h⟩
      · exact .inl h
    · exact .inr ⟨entry, List.mem_cons_of_mem _ hentry, heq⟩

theorem get?_insertAll_of_not_mem (t : Table κ ν) {entries : List (κ × ν)} {key : κ}
    (h : key ∉ keys entries) : get? (insertAll t entries) key = get? t key := by
  induction entries generalizing t with
  | nil => rfl
  | cons entry rest ih =>
    obtain ⟨hne, hrest⟩ := not_or.mp (List.mem_cons.not.mp h)
    rw [insertAll_cons, ih _ hrest, get?_insert, if_neg fun hk => hne (eq_of_beq hk).symm]

theorem exists_get?_insertAll_of_mem (t : Table κ ν) {entries : List (κ × ν)} {key : κ}
    (h : key ∈ keys entries) :
    ∃ entry ∈ entries, get? (insertAll t entries) key = some entry.2 := by
  induction entries generalizing t with
  | nil => cases h
  | cons entry rest ih =>
    rw [insertAll_cons]
    by_cases hrest : key ∈ keys rest
    · obtain ⟨written, hw, hget⟩ := ih _ hrest
      exact ⟨written, List.mem_cons_of_mem _ hw, hget⟩
    · -- no later entry writes the key again
      have hk : key = entry.1 := (List.mem_cons.mp h).resolve_right hrest
      refine ⟨entry, List.mem_cons_self, ?_⟩
      rw [get?_insertAll_of_not_mem _ hrest, get?_insert, if_pos (by simp [hk])]

theorem nodup_keys_insertAll {t : Table κ ν} (h : (keys t).Nodup) (entries : List (κ × ν)) :
    (keys (insertAll t entries)).Nodup := by
  induction entries generalizing t with
  | nil => exact h
  | cons entry rest ih => exact ih (nodup_keys_insert h _ _)

theorem nodup_keys_ofPairs (entries : List (κ × ν)) : (keys (ofPairs entries)).Nodup :=
  nodup_keys_insertAll (t := []) List.nodup_nil entries

theorem insertAll_of_nodup {t entries : Table κ ν} (h : (keys (t ++ entries)).Nodup) :
    insertAll t entries = t ++ entries := by
  induction entries generalizing t with
  | nil => simp
  | cons entry rest ih =>
    obtain ⟨k, v⟩ := entry
    have hk : k ∉ keys t := by
      rw [keys, List.map_append, List.nodup_append] at h
      exact fun hm => h.2.2 k hm k (by simp) rfl
    rw [insertAll_cons, insert_of_not_mem hk, ih (by simpa using h), List.append_assoc]
    rfl

theorem ofPairs_of_nodup {entries : Table κ ν} (h : (keys entries).Nodup) :
    ofPairs entries = entries :=
  insertAll_of_nodup (t := []) h

/-- Of several writes to a key the last one is found. -/
theorem get?_insertAll_reverse (t : Table κ ν) (entries : List (κ × ν)) (key : κ) :
    get? (insertAll t entries) key = (get? entries.reverse key).or (get? t key) := by
  induction entries using List.reverseRecOn with
  | nil => rfl
  | append_singleton entries entry ih =>
    rw [insertAll_append, insertAll_cons, insertAll_nil, get?_insert, List.reverse_append,
      List.reverse_singleton, List.singleton_append, get?, ih]
    split
    · rfl
    · rfl

/-- The keys of pairs are the different ones among theirs, each in the place of its first pair. -/
theorem keys_ofPairs (entries : List (κ × ν)) :
    keys (ofPairs entries) = (keys entries).eraseDups := by
  induction entries using List.reverseRecOn with
  | nil => rfl
  | append_singleton entries entry ih =>
    have hkeys : keys (entries ++ [entry]) = keys entries ++ [entry.1] := List.map_append
    rw [hkeys, List.eraseDups_append, ← ih, ofPairs, insertAll_append, insertAll_cons,
      insertAll_nil, keys_insert, ← ofPairs]
    by_cases hkey : entry.1 ∈ keys entries
    · rw [if_pos (by rwa [ih, List.mem_eraseDups])]
      simp [hkey, List.removeAll]
    · rw [if_neg (by rwa [ih, List.mem_eraseDups])]
      simp [hkey, List.removeAll, List.eraseDups_cons]

/-- Pairs become as many entries as they are just if their keys are all different. -/
theorem length_ofPairs_iff {entries : List (κ × ν)} :
    (ofPairs entries).length = entries.length ↔ (keys entries).Nodup := by
  constructor
  · intro hlength
    have hsub : (keys (ofPairs entries)).Subperm (keys entries) :=
      List.subperm_of_subset (nodup_keys_ofPairs entries) fun key hkey => by
        rwa [keys_ofPairs, List.mem_eraseDups] at hkey
    have hsame : (keys entries).length = (keys (ofPairs entries)).length := by
      rw [keys, keys, List.length_map, List.length_map, hlength]
    exact (hsub.perm_of_length_le (Nat.le_of_eq hsame)).nodup_iff.mp (nodup_keys_ofPairs entries)
  · intro hnodup
    rw [ofPairs_of_nodup hnodup]

/-! ### Keys with any equality -/

/-- The value of a key after several writes, if it has one before. -/
def latest (key : κ) (value : ν) (entries : List (κ × ν)) : ν :=
  entries.foldl (fun v entry => if key == entry.1 then entry.2 else v) value

/-- One entry for each key among some: in the place of its first one, with the value of its last
one. -/
def onePerKey : List (κ × ν) → Table κ ν
  | [] => []
  | (key, value) :: rest =>
    (key, latest key value rest) :: onePerKey (rest.filter fun entry => !(key == entry.1))
termination_by entries => entries.length
decreasing_by
  rw [List.length_unattach, List.length_cons, Nat.lt_succ_iff, ← List.length_attach (l := rest)]
  exact List.length_filter_le ..

omit [LawfulBEq κ] in
/-- Of several writes those to the first key change its value in place, and the others are writes to
the rest. -/
theorem insertAll_cons_left (key : κ) (value : ν) (t : Table κ ν) (entries : List (κ × ν)) :
    insertAll ((key, value) :: t) entries =
      (key, latest key value entries) ::
        insertAll t (entries.filter fun entry => !(key == entry.1)) := by
  induction entries generalizing value t with
  | nil => rfl
  | cons entry rest ih =>
    rw [insertAll_cons, insert]
    by_cases hk : (key == entry.1) = true
    · simp [hk, ih, latest]
    · simp [hk, ih, latest]

omit [LawfulBEq κ] in
theorem ofPairs_eq_onePerKey (entries : List (κ × ν)) : ofPairs entries = onePerKey entries := by
  match entries with
  | [] => rw [onePerKey]; rfl
  | (key, value) :: rest =>
    rw [onePerKey, ← ofPairs_eq_onePerKey (rest.filter fun entry => !(key == entry.1)), ofPairs,
      insertAll_cons, insert, insertAll_cons_left, ofPairs]
termination_by entries.length
decreasing_by exact Nat.lt_succ_iff.mpr (List.length_filter_le ..)

omit [LawfulBEq κ] in
/-- What is found after a write was found before, or was just written. -/
theorem get?_insert_or (t : Table κ ν) (key other : κ) (value : ν) :
    get? (insert t key value) other = some value ∨
      get? (insert t key value) other = get? t other := by
  induction t with
  | nil => by_cases h : (key == other) = true <;> simp [insert, get?, h]
  | cons entry rest ih =>
    rw [insert]
    split
    · by_cases h : (entry.1 == other) = true <;> simp [get?, h]
    · by_cases h : (entry.1 == other) = true
      · simp [get?, h]
      · simpa [get?, h] using ih

omit [LawfulBEq κ] in
/-- A write under a key that no key has in common with another one does not concern that one. -/
theorem get?_insert_of_apart (t : Table κ ν) {key other : κ} (value : ν)
    (hself : (key == other) = false) (h : ∀ k, (k == key) = true → (k == other) = false) :
    get? (insert t key value) other = get? t other := by
  induction t with
  | nil => simp [insert, get?, hself]
  | cons entry rest ih =>
    rw [insert]
    split
    · next hk => simp [get?, h entry.1 hk]
    · rw [get?, get?, ih]

/-! ### Leaving keys out -/

theorem get?_filter (t : Table κ ν) (kept : κ → Bool) (key : κ) :
    get? (t.filter fun entry => kept entry.1) key = if kept key then get? t key else none := by
  induction t with
  | nil => simp
  | cons entry rest ih =>
    obtain ⟨k, v⟩ := entry
    by_cases hk : k = key
    · subst hk
      by_cases hp : kept k
      · simp [hp, get?]
      · simp [hp, ih]
    · by_cases hp : kept k <;> simp [hp, get?, hk, ih]

/-! ### Other keys -/

section

variable {κ κ' ν : Type} [BEq κ] [BEq κ'] {f : κ → κ'}
variable (hf : ∀ key other : κ, (f key == f other) = (key == other))
include hf

/-- A function that keeps apart what was apart may be applied to all keys. -/
theorem get?_mapKeys (t : Table κ ν) (key : κ) :
    get? (t.map fun entry => (f entry.1, entry.2)) (f key) = get? t key := by
  induction t with
  | nil => rfl
  | cons entry rest ih => rw [List.map_cons, get?, get?, hf, ih]

theorem insert_mapKeys (t : Table κ ν) (key : κ) (value : ν) :
    insert (t.map fun entry => (f entry.1, entry.2)) (f key) value =
      (insert t key value).map fun entry => (f entry.1, entry.2) := by
  induction t with
  | nil => rfl
  | cons entry rest ih =>
    rw [List.map_cons, insert, insert, hf]
    split
    · rfl
    · rw [ih, List.map_cons]

theorem insertAll_mapKeys (t : Table κ ν) (entries : List (κ × ν)) :
    insertAll (t.map fun entry => (f entry.1, entry.2))
        (entries.map fun entry => (f entry.1, entry.2)) =
      (insertAll t entries).map fun entry => (f entry.1, entry.2) := by
  induction entries generalizing t with
  | nil => rfl
  | cons entry rest ih =>
    rw [List.map_cons, insertAll_cons, insertAll_cons, insert_mapKeys hf, ih]

end

end Table

/-! ### Mappings by names -/

namespace Mapping

/-- The mapping with the names of a table as its keys. -/
def ofNames (t : Table String Value) : Mapping := t.map fun entry => (.text entry.1, entry.2)

theorem get?_ofNames (t : Table String Value) (name : String) :
    Table.get? (ofNames t) (.text name) = Table.get? t name :=
  Table.get?_mapKeys (by simp) t name

theorem insert_ofNames (t : Table String Value) (name : String) (v : Value) :
    Table.insert (ofNames t) (.text name) v = ofNames (Table.insert t name v) :=
  Table.insert_mapKeys (by simp) t name v

theorem insertAll_ofNames (t entries : Table String Value) :
    Table.insertAll (ofNames t) (ofNames entries) = ofNames (Table.insertAll t entries) :=
  Table.insertAll_mapKeys (by simp) t entries

/-! ### Flattening what is flat -/

theorem leavesAt_of_not_isMap {v : Value} (h : v.isMap = false) (path : List Value) :
    v.leavesAt path = [(path, v)] := by
  cases v with
  | map entries => simp [Value.isMap, Value.entries?] at h
  | object identity content =>
    have hc : content.isMap = false := h
    simp [Value.leavesAt, hc]
  | _ => rfl

theorem leaves_ofNames {t : Table String Value} (h : ∀ entry ∈ t, entry.2.isMap = false) :
    (ofNames t).leaves = t.map fun entry => ([Value.text entry.1], entry.2) := by
  induction t with
  | nil => rfl
  | cons entry rest ih =>
    have hrest := ih fun e he => h e (List.mem_cons_of_mem _ he)
    simp only [leaves] at hrest
    simp only [leaves, ofNames, List.map_cons, leavesAt, List.nil_append]
    rw [leavesAt_of_not_isMap (h entry List.mem_cons_self)]
    exact congrArg _ hrest

/-- A flat mapping by different names is its own flat form. -/
theorem flatten_ofNames {t : Table String Value} (ht : (Table.keys t).Nodup)
    (h : ∀ entry ∈ t, entry.2.isMap = false) : (ofNames t).flatten = ofNames t := by
  have hpairs : ((ofNames t).leaves.map fun leaf => (Path.toKey leaf.1, leaf.2)) = ofNames t := by
    rw [leaves_ofNames h, List.map_map]
    exact List.map_congr_left fun entry _ => by simp
  rw [flatten, hpairs, Table.ofPairs]
  show Table.insertAll (ofNames []) (ofNames t) = ofNames t
  rw [insertAll_ofNames]
  exact congrArg ofNames (Table.ofPairs_of_nodup ht)

end Mapping

/-! ### Expanding what is flat -/

theorem Text.split_of_not_mem {separator : Char} {text : List Char} (h : separator ∉ text) :
    split separator text = [text] := by
  induction text with
  | nil => rfl
  | cons c rest ih =>
    rw [List.mem_cons, not_or] at h
    rw [split, if_neg fun hc => h.1 hc.symm, ih h.2]

theorem Path.ofKey_text {name : String} (h : separator ∉ name.toList) :
    ofKey (.text name) = [.text name] := by
  simp [ofKey, Value.bare, segments, Text.split_of_not_mem h]

namespace Mapping

/-- A flat mapping by different names without points is its own nested form. -/
theorem expandShared_ofNames (mark : Value → Value → Value) {t : Table String Value}
    (ht : (Table.keys t).Nodup) (h : ∀ name ∈ Table.keys t, Path.separator ∉ name.toList) :
    expandShared mark (ofNames t) = ⟨ofNames t, []⟩ := by
  -- what is nested so far is flat, and has other names than what is to come
  have key : ∀ before : Table String Value, (Table.keys (before ++ t)).Nodup →
      (ofNames t).foldl (fun x entry => x.write mark entry.1 entry.2)
        (⟨ofNames before, []⟩ : Expansion) = ⟨ofNames (before ++ t), []⟩ := by
    induction t with
    | nil => exact fun before _ => by simp [ofNames]
    | cons entry rest ih =>
      obtain ⟨name, v⟩ := entry
      intro before hnodup
      have hnew : name ∉ Table.keys before := by
        rw [Table.keys, List.map_append, List.nodup_append] at hnodup
        exact fun hm => hnodup.2.2 name hm name List.mem_cons_self rfl
      have hwrite : Expansion.write mark ⟨ofNames before, []⟩ (.text name) v =
          ⟨ofNames (before ++ [(name, v)]), []⟩ := by
        rw [← Table.insert_of_not_mem hnew, ← insert_ofNames]
        simp [Expansion.write, Path.ofKey_text (h name List.mem_cons_self), holder?, insertAt,
          Value.receiveAll]
      have hnodup' : (Table.keys ((before ++ [(name, v)]) ++ rest)).Nodup := by
        rwa [List.append_assoc]
      have hrest := ih (List.nodup_cons.mp ht).2
        (fun other hother => h other (List.mem_cons_of_mem _ hother)) _ hnodup'
      rw [List.append_assoc, ← hwrite] at hrest
      exact hrest
  exact key [] ht

end Mapping

end Formulary
