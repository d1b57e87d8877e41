import Formulary.Proofs.Calculator.Order
import Formulary.Proofs.Mapping.FlatKeys

/-!
# Naming nested expressions

A bulk solve flattens its expressions before it names them. Two flat keys with one name collide, and
the failure says which ones. But leaves at different paths that have one dotted text are one entry
of the flat mapping already, so these do not collide: the last one is solved and the others are
lost. Hence naming fails just if two different dotted texts have one name, and it names as many
expressions as there are leaves just if no two leaves have one dotted text
(`namedExpressions_of_hasTextPaths`).
-/

namespace Formulary

namespace Ensemble

variable {b : Bindings}

/-- Naming fails with a key whose name a key before it has. -/
theorem exists_collision_of_nameAfter {before : List Named} {flat : Mapping} {fault : Error}
    (h : nameAfter b before flat = .error fault) :
    ∃ front entry back, flat = front ++ entry :: back ∧
      ∃ other ∈ before ++ front.map (namedOf b), other.name = b.normalize entry.1 ∧
        fault = .argument (.collision other.key.shown entry.1.shown (b.normalize entry.1)) := by
  fun_induction nameAfter b before flat with
  | case1 => cases h
  | case2 before key expression rest name other hother =>
    refine ⟨[], (key, expression), rest, rfl, other, ?_, ?_, (Except.error.inj h).symm⟩
    · simpa using List.mem_of_find?_eq_some hother
    · simpa using List.find?_some hother
  | case3 before key expression rest name hnone ih =>
    obtain ⟨front, entry, back, rfl, other, hmem, hother⟩ := ih h
    refine ⟨(key, expression) :: front, entry, back, rfl, other, ?_, hother⟩
    rw [List.append_assoc] at hmem
    exact hmem

theorem exists_collision_of_namedExpressions {expressions : Value} {flat : Mapping}
    {found : Option Error} (hflat : flatExpressions b expressions = .ok (flat, found))
    {fault : Error} (h : namedExpressions b expressions = .error fault) :
    ∃ front entry back, flat = front ++ entry :: back ∧
      ∃ other ∈ front, b.normalize other.1 = b.normalize entry.1 ∧
        fault = .argument (.collision other.1.shown entry.1.shown (b.normalize entry.1)) := by
  have hrun : (nameAfter b [] flat >>= fun named => pure (named, found)) = .error fault := by
    rw [namedExpressions, hflat] at h
    exact h
  rcases hnames : nameAfter b [] flat with e | named
  · rw [hnames] at hrun
    obtain rfl : e = fault := Except.error.inj hrun
    obtain ⟨front, entry, back, hsplit, other, hmem, hother⟩ := exists_collision_of_nameAfter hnames
    obtain ⟨other, hfront, rfl⟩ := List.mem_map.mp hmem
    exact ⟨front, entry, back, hsplit, other, hfront, hother⟩
  · rw [hnames] at hrun
    cases hrun

/-- What is named is the table of the leaves by their dotted texts. -/
theorem flatExpressions_of_hasTextPaths (hnested : b.ignoreNested = false) {expressions : Value}
    {data : Mapping} (hdata : expressions.entries? = some data) (htexts : data.HasTextPaths) :
    flatExpressions b expressions = .ok (Mapping.ofNames (Table.ofPairs data.dotted), none) := by
  rw [flatExpressions, hdata, hnested]
  show Except.ok (Mapping.flattenUnless false data, none) = _
  rw [Mapping.flattenUnless_false, Mapping.flatten_of_hasTextPaths htexts]

section

variable {expressions : Value} {entries : List (String × Value)} {found : Option Error}
  (hflat : flatExpressions b expressions = .ok (Mapping.ofNames (Table.ofPairs entries), found))

include hflat

/-- A table has each text once, so what collides in it are different texts. -/
theorem exists_ne_of_namedExpressions {fault : Error}
    (h : namedExpressions b expressions = .error fault) :
    ∃ text ∈ Table.keys entries, ∃ other ∈ Table.keys entries, text ≠ other ∧
      b.normalize (.text text) = b.normalize (.text other) ∧
      fault = .argument (.collision (Value.text text).shown (Value.text other).shown
        (b.normalize (.text other))) := by
  obtain ⟨front, entry, back, hsplit, other, hother, hname, rfl⟩ :=
    exists_collision_of_namedExpressions hflat h
  obtain ⟨front, rest, htable, rfl, hrest⟩ := List.map_eq_append_iff.mp hsplit
  obtain ⟨entry, back, rfl, rfl, rfl⟩ := List.map_eq_cons_iff.mp hrest
  obtain ⟨other, hbefore, rfl⟩ := List.mem_map.mp hother
  have hkeys := Table.keys_ofPairs entries
  have hnodup := Table.nodup_keys_ofPairs entries
  rw [htable, Table.keys, List.map_append, List.map_cons] at hkeys hnodup
  have hbefore : other.1 ∈ front.map Prod.fst := List.mem_map_of_mem hbefore
  refine ⟨other.1, ?_, entry.1, ?_, ?_, hname, rfl⟩
  · rw [← List.mem_eraseDups, ← hkeys]
    exact List.mem_append_left _ hbefore
  · rw [← List.mem_eraseDups, ← hkeys]
    exact List.mem_append_right _ List.mem_cons_self
  · exact (List.nodup_append.mp hnodup).2.2 _ hbefore _ List.mem_cons_self

/-- What is named is the table, entry by entry. -/
theorem eq_map_of_namedExpressions {named : List Named} {fault : Option Error}
    (h : namedExpressions b expressions = .ok (named, fault)) :
    named = (Table.ofPairs entries).map fun entry =>
      ⟨b.normalize (.text entry.1), .text entry.1, entry.2⟩ := by
  obtain ⟨flat, hflat', hmap, -⟩ := namedExpressions_eq_ok_iff.mp h
  obtain ⟨rfl, -⟩ := Prod.ext_iff.mp (Except.ok.inj (hflat.symm.trans hflat'))
  rw [hmap, Mapping.ofNames, List.map_map]
  rfl

end

/-- **Naming nested expressions**, whatever texts their keys are. If two different dotted texts have
one name, naming fails and says which ones collide. Otherwise each different dotted text names one
expression, the one of the last leaf that has it; so as many are named as there are leaves just if
all leaves have different dotted texts. -/
theorem namedExpressions_of_hasTextPaths (hnested : b.ignoreNested = false) {expressions : Value}
    {data : Mapping} (hdata : expressions.entries? = some data) (htexts : data.HasTextPaths) :
    (∃ text ∈ Table.keys data.dotted, ∃ other ∈ Table.keys data.dotted, text ≠ other ∧
      b.normalize (.text text) = b.normalize (.text other) ∧
      namedExpressions b expressions = .error (.argument (.collision (Value.text text).shown
        (Value.text other).shown (b.normalize (.text other))))) ∨
    (∀ text ∈ Table.keys data.dotted, ∀ other ∈ Table.keys data.dotted,
      b.normalize (.text text) = b.normalize (.text other) → text = other) ∧
    ∃ named, namedExpressions b expressions = .ok (named, none) ∧
      named.map Named.key = (Table.keys data.dotted).eraseDups.map Value.text ∧
      AreNamedBy b named ∧ (namesOf named).Nodup ∧
      (∀ x ∈ named, ∀ text, x.key = .text text →
        Table.get? data.dotted.reverse text = some x.expression) ∧
      (named.length = data.leaves.length ↔ (Table.keys data.dotted).Nodup) := by
  have hflat := flatExpressions_of_hasTextPaths hnested hdata htexts
  rcases hnamed : namedExpressions b expressions with fault | ⟨named, found⟩
  · left
    obtain ⟨text, htext, other, hother, hne, hsame, rfl⟩ :=
      exists_ne_of_namedExpressions hflat hnamed
    exact ⟨text, htext, other, hother, hne, hsame, rfl⟩
  · right
    have hall := eq_map_of_namedExpressions hflat hnamed
    obtain ⟨flat, hflat', -, hnames⟩ := namedExpressions_eq_ok_iff.mp hnamed
    obtain rfl := (Prod.ext_iff.mp (Except.ok.inj (hflat.symm.trans hflat'))).2
    have hentry : ∀ text ∈ Table.keys data.dotted,
        text ∈ Table.keys (Table.ofPairs data.dotted) := by
      intro text htext
      rw [Table.keys_ofPairs, List.mem_eraseDups]
      exact htext
    refine ⟨?_, named, rfl, ?_, (namesOf_namedExpressions hnamed).2, hnames, ?_, ?_⟩
    · intro text htext other hother hsame
      obtain ⟨x, hx, rfl⟩ := List.mem_map.mp (hentry text htext)
      obtain ⟨y, hy, rfl⟩ := List.mem_map.mp (hentry other hother)
      rw [hall, namesOf, List.map_map] at hnames
      exact congrArg Prod.fst (List.inj_on_of_nodup_map hnames hx hy hsame)
    · rw [hall, List.map_map, ← Table.keys_ofPairs, Table.keys, List.map_map]
      rfl
    · intro x hx text hkey
      rw [hall] at hx
      obtain ⟨entry, hentry, rfl⟩ := List.mem_map.mp hx
      obtain rfl := Value.text.inj hkey
      have hget := Table.get?_of_mem (Table.nodup_keys_ofPairs data.dotted) hentry
      rw [Table.ofPairs, Table.get?_insertAll_reverse, Table.get?_nil, Option.or_none] at hget
      exact hget
    · rw [hall, List.length_map, ← Mapping.length_dotted, Table.length_ofPairs_iff]

/-- Nested expressions of which the first and the last have one dotted text. -/
def shadowing : Mapping :=
  [(.text "a", .map [(.text "b", .text "1")]), (.text "A", .map [(.text "c", .text "2")]),
    (.text "a.b", .text "3")]

/-- The first of them is lost without a collision. -/
theorem namedExpressions_shadowing : shadowing.HasTextPaths ∧
    ∃ named, namedExpressions (.empty false false) (.map shadowing) = .ok (named, none) ∧
      named.map Named.key = [.text "a.b", .text "A.c"] ∧
      (∀ x ∈ named, x.key = .text "a.b" → x.expression = .text "3") ∧
      named.length ≠ shadowing.leaves.length := by
  have htexts : shadowing.HasTextPaths := by
    have hleaves : shadowing.leaves = [([.text "a", .text "b"], .text "1"),
        ([.text "A", .text "c"], .text "2"), ([.text "a.b"], .text "3")] := rfl
    simp [Mapping.HasTextPaths, hleaves]
  have hkeys : Table.keys shadowing.dotted = ["a.b", "A.c", "a.b"] := rfl
  have hrun : namedExpressions (.empty false false) (.map shadowing) =
      .ok ([⟨"a.b", .text "a.b", .text "3"⟩, ⟨"a.c", .text "A.c", .text "2"⟩], none) := by rfl
  have hnested : (Bindings.empty false false).ignoreNested = false := rfl
  have hdata : (Value.map shadowing).entries? = some shadowing := rfl
  rcases namedExpressions_of_hasTextPaths hnested hdata htexts with
    ⟨text, -, other, -, -, -, hcollision⟩ | ⟨-, named, hnamed, hall, -, -, hlast, hlength⟩
  · rw [hrun] at hcollision
    cases hcollision
  · refine ⟨htexts, named, hnamed, ?_, ?_, ?_⟩
    · rw [hall, hkeys]
      rfl
    · intro x hx hkey
      exact (Option.some.inj (hlast x hx "a.b" hkey)).symm
    · intro hnone
      have hdifferent := hlength.mp hnone
      rw [hkeys] at hdifferent
      exact absurd hdifferent (by decide)

end Ensemble

end Formulary
