import Formulary.Proofs.Table

/-!
# Expanding without a write into an object

Expanding a flat mapping writes into one of its values only if the value is a mapping and a path
leads on from its path. If no path does (`Mapping.IsUntangled`), nothing is written into any object,
whichever of them the values hold (`writes_expandShared`).

The induction is over the entries. No path leads through an object in what has been expanded, since
an entry puts its value at the end of its own path, and all that it puts above is new
(`holder?_insertAt`).
-/

namespace Formulary

/-! ### Names as keys -/

/-- Whether a value is a key that names by its own text. -/
def Value.IsName (v : Value) : Prop := ∃ s, v = .text s ∨ v = .symbol s

namespace Value.IsName

variable {v k : Value}

theorem isSameObject_eq_false (h : v.IsName) (k : Value) : k.isSameObject v = false := by
  obtain ⟨s, rfl | rfl⟩ := h <;> simp [isSameObject, identity?]

theorem bare_of_equals (h : v.IsName) (hequals : k.equals v = true) : k.bare = v := by
  fun_induction bare k with
  | case1 identity content ih =>
    rw [equals, h.isSameObject_eq_false] at hequals
    split at hequals
    · cases hequals
    · exact ih hequals
  | case2 k hk =>
    obtain ⟨s, rfl | rfl⟩ := h
    · cases k <;> simp_all [equals, bare, scalar?]
    · cases k <;> simp_all [equals, bare, scalar?]

/-- A key under which a name is looked up is that name. -/
theorem bare_of_same (h : v.IsName) (hsame : (k == v) = true) : k.bare = v := by
  rw [beq_eq_same, same, h.isSameObject_eq_false, Bool.false_or] at hsame
  exact h.bare_of_equals hsame

end Value.IsName

/-- A key whose path is longer than itself names. -/
theorem Path.isName_of_ofKey {key : Value} (h : 2 ≤ (ofKey key).length) :
    ∀ segment ∈ ofKey key, segment.IsName := by
  unfold ofKey at h ⊢
  split at h
  · intro segment hsegment
    obtain ⟨s, -, rfl⟩ := List.mem_map.mp hsegment
    exact ⟨s, .inl rfl⟩
  · intro segment hsegment
    obtain ⟨s, -, rfl⟩ := List.mem_map.mp hsegment
    exact ⟨s, .inr rfl⟩
  · simp at h

namespace Mapping

/-- Under another name a write changes nothing. -/
theorem get?_insert_of_isName (entries : Mapping) {key other : Value} (hkey : key.IsName)
    (hother : other.IsName) (hne : key ≠ other) (v : Value) :
    Table.get? (Table.insert entries key v) other = Table.get? entries other := by
  have hbare : key.bare = key := by obtain ⟨s, rfl | rfl⟩ := hkey <;> rfl
  refine Table.get?_insert_of_apart entries v ?_ fun k hk => ?_
  · by_contra hsame
    rw [Bool.not_eq_false] at hsame
    exact hne (hbare.symm.trans (hother.bare_of_same hsame))
  · by_contra hsame
    rw [Bool.not_eq_false] at hsame
    exact hne ((hkey.bare_of_same hk).symm.trans (hother.bare_of_same hsame))

/-! ### Paths through objects -/

@[simp] theorem holder?_nil (path : List Value) : holder? [] path = none := by
  cases path with
  | nil => rfl
  | cons key rest => simp [holder?]

theorem holder?_congr {entries other : Mapping} {key : Value} (rest : List Value)
    (h : Table.get? entries key = Table.get? other key) :
    entries.holder? (key :: rest) = other.holder? (key :: rest) := by
  rw [holder?, holder?, h]

/-- A write under another name leaves what a path leads through as it was. -/
theorem holder?_insert_of_ne (entries : Mapping) {key first : Value} (hkey : key.IsName)
    (hfirst : first.IsName) (hne : key ≠ first) (rest : List Value) (v : Value) :
    holder? (Table.insert entries key v) (first :: rest) = entries.holder? (first :: rest) :=
  holder?_congr rest (get?_insert_of_isName entries hkey hfirst hne v)

/-- A write puts its value where a path begins, or it leads through no object if it did not before.
-/
theorem get?_insert_or_holder? {entries : Mapping} {first : Value} {rest : List Value}
    (h : entries.holder? (first :: rest) = none) (key v : Value) :
    Table.get? (Table.insert entries key v) first = some v ∨
      holder? (Table.insert entries key v) (first :: rest) = none :=
  (Table.get?_insert_or entries key first v).imp_right fun hget =>
    (holder?_congr rest hget).trans h

theorem holder?_of_not_isMap {entries : Mapping} {key v : Value} (rest : List Value)
    (h : Table.get? entries key = some v) (hv : ¬ v.isMap = true) :
    entries.holder? (key :: rest) = none := by
  have hnone : v.entries? = none := by simpa [Value.isMap] using hv
  rw [holder?, h]
  simp [hnone]

/-- In a mapping that is no object a path leads through what the rest of it leads through. -/
theorem holder?_of_map {entries inner : Mapping} {key : Value} {rest : List Value}
    (h : Table.get? entries key = some (.map inner)) (hinner : inner.holder? rest = none) :
    entries.holder? (key :: rest) = none := by
  rw [holder?, h]
  simp [Value.entries?, hinner, Value.identity?]

/-- A path that leads through no object leads through none from its second key on. -/
theorem holder?_child {entries : Mapping} {key : Value} {rest : List Value} (hne : rest ≠ [])
    (h : entries.holder? (key :: rest) = none) : (child entries key).holder? rest = none := by
  rw [holder?, if_neg (by simpa using hne)] at h
  rw [child]
  rcases hv : Table.get? entries key with - | v
  · simp
  · rcases hinner : v.entries? with - | inner
    · simp [hinner]
    · simp only [hv, hinner, Option.or_eq_none_iff] at h
      simpa [hinner] using h.1

/-- After a value is put at the end of a path, a path leads through no object if it did not before
and does not lead on from there, or if the value is no mapping. -/
theorem holder?_insertAt {entries : Mapping} {path other : List Value} {v : Value}
    (hentries : entries.holder? other = none)
    (hpath : 2 ≤ path.length ∨ v.isMap = true → ∀ key ∈ path, key.IsName)
    (hother : 2 ≤ other.length → ∀ key ∈ other, key.IsName)
    (hv : v.isMap = true → path <+: other → path = other) :
    (insertAt entries path v).holder? other = none := by
  induction path generalizing entries other with
  | nil => exact hentries
  | cons key path ih =>
    rcases other with - | ⟨first, rest⟩
    · rfl
    by_cases hrest : rest = []
    · simp [holder?, hrest]
    have hnames := hother (by
      have := List.length_pos_iff.mpr hrest
      rw [List.length_cons]
      omega)
    cases path with
    | nil =>
      -- The value is put here; if it is a mapping, the other path leads elsewhere from its start.
      rw [insertAt]
      by_cases hmap : v.isMap = true
      · have hne : key ≠ first := by
          rintro rfl
          have hprefix : [key] <+: key :: rest := ⟨rest, rfl⟩
          exact hrest (List.cons.inj (hv hmap hprefix)).2.symm
        rw [holder?_insert_of_ne entries (hpath (.inr hmap) key List.mem_cons_self)
          (hnames first List.mem_cons_self) hne]
        exact hentries
      · rcases get?_insert_or_holder? hentries key v with hget | hnone
        · exact holder?_of_not_isMap rest hget hmap
        · exact hnone
    | cons second path =>
      -- What is put under the first key is no object, so a first key in common is stepped over.
      have hkeys := hpath (.inl (by simp))
      rw [insertAt]
      · by_cases hkey : key = first
        · subst hkey
          rcases get?_insert_or_holder? hentries key
            (.map (insertAt (child entries key) (second :: path) v)) with hget | hnone
          · refine holder?_of_map hget (ih (holder?_child hrest hentries) ?_ ?_ ?_)
            · exact fun _ k hk => hkeys k (List.mem_cons_of_mem _ hk)
            · exact fun _ k hk => hnames k (List.mem_cons_of_mem _ hk)
            · intro hmap hprefix
              have hlonger : key :: second :: path <+: key :: rest :=
                List.cons_prefix_cons.mpr ⟨rfl, hprefix⟩
              exact (List.cons.inj (hv hmap hlonger)).2
          · exact hnone
        · rw [holder?_insert_of_ne entries (hkeys key List.mem_cons_self)
            (hnames first List.mem_cons_self) hkey]
          exact hentries
      · simp

/-! ### Untangled mappings -/

/-- Whether no path of a flat mapping leads on from that of a value which is a mapping. -/
def IsUntangled (flat : Mapping) : Prop :=
  ∀ entry ∈ flat, entry.2.isMap = true → (∀ key ∈ Path.ofKey entry.1, key.IsName) ∧
    ∀ other ∈ flat, Path.ofKey entry.1 <+: Path.ofKey other.1 →
      Path.ofKey entry.1 = Path.ofKey other.1

/-- **Untangled mappings are expanded without a write into an object.** -/
theorem writes_expandShared {flat : Mapping} (h : flat.IsUntangled)
    (mark : Value → Value → Value) : (expandShared mark flat).writes = [] := by
  -- All paths are kept in view, not only those of the rest: they lead through no object so far.
  have hrun : ∀ rest : Mapping, rest ⊆ flat → ∀ nested : Mapping,
      (∀ other ∈ flat, nested.holder? (Path.ofKey other.1) = none) →
      (rest.foldl (fun x entry => x.write mark entry.1 entry.2)
        (⟨nested, []⟩ : Expansion)).writes = [] := by
    intro rest
    induction rest with
    | nil => exact fun _ _ _ => rfl
    | cons entry rest ih =>
      intro hsub nested hnested
      have hentry : entry ∈ flat := hsub List.mem_cons_self
      have hwrite : (⟨nested, []⟩ : Expansion).write mark entry.1 entry.2 =
          ⟨insertAt nested (Path.ofKey entry.1) entry.2, []⟩ := by
        simp [Expansion.write, hnested entry hentry, Value.receiveAll]
      rw [List.foldl_cons, hwrite]
      refine ih (fun x hx => hsub (List.mem_cons_of_mem _ hx)) _ fun other hother => ?_
      refine holder?_insertAt (hnested other hother) ?_ Path.isName_of_ofKey ?_
      · rintro (hlong | hmap)
        · exact Path.isName_of_ofKey hlong
        · exact (h entry hentry hmap).1
      · exact fun hmap => (h entry hentry hmap).2 other hother
  exact hrun flat (List.Subset.refl flat) [] fun other _ => holder?_nil _

end Mapping

end Formulary
