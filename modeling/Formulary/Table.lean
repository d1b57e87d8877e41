/-!
# Tables

A table holds pairs of a key and a value in the order in which the keys came in. Writing to a key
that is present changes its value in place and keeps the key object that was there first; every
other key goes to the end.

The view of a table is `get?`. Writing is pinned down by `get?_insert`, erasing by `get?_erase`,
and the order of the keys by `keys_insert`.
-/

namespace Formulary

/-- Pairs of a key and a value in insertion order. -/
abbrev Table (κ ν : Type) := List (κ × ν)

namespace Table

variable {κ ν : Type} [BEq κ]

/-- The keys in order. -/
def keys (t : Table κ ν) : List κ := t.map Prod.fst

/-- The value of a key, if the key is present. -/
def get? : Table κ ν → κ → Option ν
  | [], _ => none
  | (k, v) :: rest, key => if k == key then some v else get? rest key

/-- Whether a key is present. -/
def has (t : Table κ ν) (key : κ) : Bool := (get? t key).isSome

/-- The table with a key's value written. -/
def insert : Table κ ν → κ → ν → Table κ ν
  | [], key, value => [(key, value)]
  | (k, v) :: rest, key, value =>
    if k == key then (k, value) :: rest else (k, v) :: insert rest key value

/-- The table with several values written, in order. -/
def insertAll (t : Table κ ν) (entries : List (κ × ν)) : Table κ ν :=
  entries.foldl (fun t entry => insert t entry.1 entry.2) t

/-- The table of the given pairs, of which later ones overwrite earlier ones. -/
def ofPairs (entries : List (κ × ν)) : Table κ ν := insertAll [] entries

/-- The table without a key. -/
def erase (t : Table κ ν) (key : κ) : Table κ ν := t.filter fun entry => !(entry.1 == key)

/-! ### The view of a table -/

@[simp] theorem get?_nil (key : κ) : get? ([] : Table κ ν) key = none := rfl

@[simp] theorem insertAll_nil (t : Table κ ν) : insertAll t [] = t := rfl

@[simp] theorem insertAll_cons (t : Table κ ν) (entry : κ × ν) (entries : List (κ × ν)) :
    insertAll t (entry :: entries) = insertAll (insert t entry.1 entry.2) entries := rfl

theorem insertAll_append (t : Table κ ν) (first second : List (κ × ν)) :
    insertAll t (first ++ second) = insertAll (insertAll t first) second :=
  List.foldl_append

/-- A function applied to all values is applied to what is found. -/
theorem get?_mapValues {ν' : Type} (t : Table κ ν) (f : ν → ν') (key : κ) :
    get? (t.map fun entry => (entry.1, f entry.2)) key = (get? t key).map f := by
  induction t with
  | nil => rfl
  | cons entry rest ih =>
    rw [List.map_cons, get?, get?]
    split
    · rfl
    · exact ih

/-- A function applied to all values is applied to what is written. -/
theorem insert_mapValues {ν' : Type} (t : Table κ ν) (f : ν → ν') (key : κ) (value : ν) :
    insert (t.map fun entry => (entry.1, f entry.2)) key (f value) =
      (insert t key value).map fun entry => (entry.1, f entry.2) := by
  induction t with
  | nil => rfl
  | cons entry rest ih =>
    rw [List.map_cons, insert, insert]
    split
    · rfl
    · rw [ih]
      rfl

theorem exists_mem_of_get? {t : Table κ ν} {key : κ} {value : ν} (h : get? t key = some value) :
    ∃ k, (k, value) ∈ t := by
  induction t with
  | nil => simp at h
  | cons entry rest ih =>
    rw [get?] at h
    split at h
    · next => exact ⟨entry.1, by rw [← Option.some.inj h]; exact List.mem_cons_self⟩
    · obtain ⟨k, hk⟩ := ih h
      exact ⟨k, List.mem_cons_of_mem _ hk⟩

theorem mem_insert {t : Table κ ν} {key : κ} {value : ν} {entry : κ × ν}
    (h : entry ∈ insert t key value) : entry ∈ t ∨ entry.2 = value := by
  induction t with
  | nil =>
    rw [insert, List.mem_singleton] at h
    exact .inr (h ▸ rfl)
  | cons first rest ih =>
    rw [insert] at h
    split at h
    · rcases List.mem_cons.1 h with rfl | h
      · exact .inr rfl
      · exact .inl (List.mem_cons_of_mem _ h)
    · rcases List.mem_cons.1 h with rfl | h
      · exact .inl List.mem_cons_self
      · exact (ih h).imp_left (List.mem_cons_of_mem _)

theorem get?_insert [LawfulBEq κ] (t : Table κ ν) (key other : κ) (value : ν) :
    get? (insert t key value) other = if key == other then some value else get? t other := by
  induction t with
  | nil => rfl
  | cons entry rest ih =>
    obtain ⟨k, v⟩ := entry
    by_cases hk : k == key
    · have : k = key := eq_of_beq hk
      subst this
      by_cases ho : k == other <;> simp [insert, get?, ho]
    · by_cases ho : k == other
      · have : k = other := eq_of_beq ho
        subst this
        have hk' : (key == k) = false := by
          rw [beq_eq_false_iff_ne]
          rintro rfl
          simp at hk
        simp [insert, get?, hk, hk']
      · simp [insert, get?, hk, ho, ih]

theorem get?_erase [LawfulBEq κ] (t : Table κ ν) (key other : κ) :
    get? (erase t key) other = if key == other then none else get? t other := by
  induction t with
  | nil => simp [erase, get?]
  | cons entry rest ih =>
    obtain ⟨k, v⟩ := entry
    simp only [erase] at ih
    by_cases hk : k == key
    · have : k = key := eq_of_beq hk
      subst this
      by_cases ho : k == other <;> simp_all [erase, get?]
    · by_cases ho : k == other
      · have : k = other := eq_of_beq ho
        subst this
        have hk' : (key == k) = false := by
          rw [beq_eq_false_iff_ne]
          rintro rfl
          simp at hk
        simp [erase, get?, hk, hk']
      · simp_all [erase, get?]

theorem keys_insert [LawfulBEq κ] (t : Table κ ν) (key : κ) (value : ν) :
    keys (insert t key value) = if key ∈ keys t then keys t else keys t ++ [key] := by
  induction t with
  | nil => simp [insert, keys]
  | cons entry rest ih =>
    obtain ⟨k, v⟩ := entry
    by_cases hk : k = key
    · subst hk
      simp [insert, keys]
    · have hne : ¬ key = k := fun h => hk h.symm
      simp only [keys] at ih
      simp only [insert, keys, beq_iff_eq, hk, if_false, List.map_cons, List.mem_cons, hne,
        false_or, ih]
      by_cases hm : key ∈ rest.map Prod.fst <;> simp [hm]

theorem nodup_keys_insert [LawfulBEq κ] {t : Table κ ν} (h : (keys t).Nodup) (key : κ)
    (value : ν) : (keys (insert t key value)).Nodup := by
  rw [keys_insert]
  split
  · exact h
  · next hm =>
    rw [List.nodup_append]
    refine ⟨h, by simp, ?_⟩
    intro a ha b hb
    rw [List.mem_singleton] at hb
    subst hb
    exact fun hab => hm (hab ▸ ha)

end Table

end Formulary
