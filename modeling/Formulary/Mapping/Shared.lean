import Formulary.Mapping.Flatten

/-!
# Mappings as objects

A mapping that is marked as an object is one mapping, however many values it occurs in. Writing into
it changes it at all its occurrences: `Value.receive` says what a value is after a write.

Expanding does not copy the values of a flat mapping: the nested mapping holds the very objects that
were given. So an entry whose path leads on into such a mapping is written into the object.
`expandShared` gives the nested mapping and these writes, in order. As long as no value is a
mapping, there are none of them, and the nested mapping is `Mapping.expand` (`expandShared_eq`).
-/

namespace Formulary

/-- A value written into a mapping that is an object, at the end of a path. -/
structure ObjectWrite where
  identity : Identity
  path : List Value
  value : Value

mutual

/-- A value after a write into an object. -/
def Value.receive (w : ObjectWrite) : Value → Value
  | .list items => .list (Value.allReceive w items)
  | .tuple items => .tuple (Value.allReceive w items)
  | .map entries => .map (Value.entriesReceive w entries)
  | .node e => .node (e.receive w)
  | .cell size hasShape item => .cell size hasShape (item.receive w)
  | .object identity content =>
    let content := content.receive w
    .object identity <|
      if identity = w.identity then
        match content.entries? with
        | some entries => .map (Mapping.insertAt entries w.path w.value)
        | Option.none => content
      else content
  | v => v

/-- The values of a list after a write into an object. -/
def Value.allReceive (w : ObjectWrite) : List Value → List Value
  | [] => []
  | v :: vs => v.receive w :: Value.allReceive w vs

/-- The entries of a mapping after a write into an object. -/
def Value.entriesReceive (w : ObjectWrite) : List (Value × Value) → List (Value × Value)
  | [] => []
  | (k, v) :: rest => (k, v.receive w) :: Value.entriesReceive w rest

/-- The item of a cell after a write into an object. -/
def Item.receive (w : ObjectWrite) : Item → Item
  | .missing => .missing
  | .fails fault => .fails fault
  | .yields v => .yields (v.receive w)

/-- An expression after a write into an object that one of its values holds. -/
def Expr.receive (w : ObjectWrite) : Expr → Expr
  | .literal v => .literal (v.receive w)
  | .identifier name => .identifier name
  | .keyed key => .keyed key
  | .negation e => .negation (e.receive w)
  | .binary op l r => .binary op (l.receive w) (r.receive w)
  | .call f args => .call f (Expr.allReceive w args)
  | .choice c t e => .choice (c.receive w) (t.receive w) (e.receive w)
  | .given result needs => .given (result.receive w) needs
  | .asking f needs => .asking f needs

/-- The expressions of a list after a write into an object. -/
def Expr.allReceive (w : ObjectWrite) : List Expr → List Expr
  | [] => []
  | e :: es => e.receive w :: Expr.allReceive w es

end

/-- A value after several writes into objects, in order. -/
def Value.receiveAll (writes : List ObjectWrite) (v : Value) : Value :=
  writes.foldl (fun v w => v.receive w) v

theorem Value.receiveAll_of_receive {v : Value} (h : ∀ w, v.receive w = v)
    (writes : List ObjectWrite) : v.receiveAll writes = v := by
  induction writes with
  | nil => rfl
  | cons w rest ih =>
    rw [receiveAll, List.foldl_cons, h w]
    exact ih

/-- The values of a table after several writes into objects, in order. -/
def Table.receiveAll {κ : Type} (writes : List ObjectWrite) (t : Table κ Value) :
    Table κ Value :=
  if writes.isEmpty then t else t.map fun entry => (entry.1, entry.2.receiveAll writes)

@[simp] theorem Table.receiveAll_nil {κ : Type} (t : Table κ Value) : receiveAll [] t = t := rfl

theorem Table.mem_receiveAll {κ : Type} {writes : List ObjectWrite} {t : Table κ Value}
    {entry : κ × Value} (h : entry ∈ receiveAll writes t) :
    ∃ v, (entry.1, v) ∈ t ∧ entry.2 = v.receiveAll writes := by
  rw [receiveAll] at h
  split at h
  · next hnil =>
    rw [List.isEmpty_iff.mp hnil]
    exact ⟨entry.2, h, rfl⟩
  · obtain ⟨⟨key, v⟩, hv, rfl⟩ := List.mem_map.mp h
    exact ⟨v, hv, rfl⟩

/-! ### Expanding with objects -/

/-- The innermost object on the way to the end of a path, and what is left of the path from there
on. The key that the path ends with is not followed. -/
def Mapping.holder? (entries : Mapping) : List Value → Option (Identity × List Value)
  | [] => none
  | key :: rest =>
    if rest.isEmpty then none
    else match Table.get? entries key with
      | some v =>
        match v.entries? with
        | some inner => (holder? inner rest).or (v.identity?.map (·, rest))
        | none => none
      | none => none

/-- An expansion in progress: the nested mapping, and what was written into objects, in order. -/
structure Expansion where
  nested : Mapping
  writes : List ObjectWrite

namespace Expansion

/-- The expansion of no entries. -/
def empty : Expansion := ⟨[], []⟩

/-- The expansion with an entry written, into the innermost object on its way if there is one. What
is written into an object is marked, since it outlives the expansion there. -/
def write (mark : Value → Value → Value) (x : Expansion) (key value : Value) : Expansion :=
  let path := Path.ofKey key
  let value := value.receiveAll x.writes
  match x.nested.holder? path with
  | some (identity, rest) =>
    let w : ObjectWrite := ⟨identity, rest, mark key value⟩
    ⟨x.nested.map fun entry => (entry.1, entry.2.receive w), x.writes ++ [w]⟩
  | none => { x with nested := Mapping.insertAt x.nested path value }

end Expansion

namespace Mapping

/-- The expansion of a flat mapping whose values may be objects. -/
def expandShared (mark : Value → Value → Value) (flat : Mapping) : Expansion :=
  flat.foldl (fun x entry => x.write mark entry.1 entry.2) .empty

end Mapping

/-! ### Expanding without objects -/

/-- A value without objects that are mappings down to its leaves: it is no mapping, or one without a
mark whose values are such values again. -/
inductive Value.IsTree : Value → Prop
  | leaf {v : Value} (h : v.isMap = false) : IsTree v
  | branch {entries : List (Value × Value)} (h : ∀ entry ∈ entries, IsTree entry.2) :
    IsTree (.map entries)

theorem Value.IsTree.of_entries? {v : Value} (h : v.IsTree) {entries : List (Value × Value)}
    (hv : v.entries? = some entries) :
    v.identity? = Option.none ∧ ∀ entry ∈ entries, entry.2.IsTree := by
  cases h with
  | leaf h => simp [Value.isMap, hv] at h
  | branch h =>
    simp only [Value.entries?, Option.some.injEq] at hv
    subst hv
    exact ⟨rfl, h⟩

namespace Mapping

/-- A nested mapping whose values are trees. -/
def IsTree (entries : Mapping) : Prop := ∀ entry ∈ entries, entry.2.IsTree

theorem isTree_nil : IsTree [] := by simp [IsTree]

theorem IsTree.get? {entries : Mapping} (h : entries.IsTree) {key v : Value}
    (hv : Table.get? entries key = some v) : v.IsTree := by
  obtain ⟨k, hk⟩ := Table.exists_mem_of_get? hv
  exact h _ hk

theorem IsTree.child {entries : Mapping} (h : entries.IsTree) (key : Value) :
    (child entries key).IsTree := by
  rw [Mapping.child]
  cases hv : Table.get? entries key with
  | none => exact isTree_nil
  | some v =>
    cases he : v.entries? with
    | none => simpa [he] using isTree_nil
    | some inner =>
      simp only [Option.bind_some, he, Option.getD_some]
      exact ((h.get? hv).of_entries? he).2

theorem IsTree.insert {entries : Mapping} (h : entries.IsTree) (key : Value) {v : Value}
    (hv : v.IsTree) : IsTree (Table.insert entries key v) := by
  intro entry he
  rcases Table.mem_insert he with he | he
  · exact h _ he
  · exact he ▸ hv

theorem IsTree.insertAt {entries : Mapping} (h : entries.IsTree) (path : List Value) {v : Value}
    (hv : v.IsTree) : (insertAt entries path v).IsTree := by
  induction path generalizing entries with
  | nil => exact h
  | cons key rest ih =>
    cases rest with
    | nil => exact h.insert key hv
    | cons next rest => exact h.insert key (.branch (ih (h.child key)))

theorem IsTree.holder? {entries : Mapping} (h : entries.IsTree) (path : List Value) :
    entries.holder? path = none := by
  induction path generalizing entries with
  | nil => rfl
  | cons key rest ih =>
    rw [Mapping.holder?]
    split
    · rfl
    · split
      · next v hv =>
        split
        · next inner hi =>
          obtain ⟨hm, ht⟩ := (h.get? hv).of_entries? hi
          rw [ih ht, hm]
          rfl
        · rfl
      · rfl

theorem expandShared_eq {flat : Mapping} (h : ∀ entry ∈ flat, entry.2.isMap = false)
    (mark : Value → Value → Value) : expandShared mark flat = ⟨expand flat, []⟩ := by
  have key : ∀ nested : Mapping, nested.IsTree →
      flat.foldl (fun x entry => x.write mark entry.1 entry.2) (⟨nested, []⟩ : Expansion) =
        ⟨flat.foldl (fun nested entry => insertAt nested (Path.ofKey entry.1) entry.2) nested,
          []⟩ := by
    induction flat with
    | nil => intro nested _; rfl
    | cons entry rest ih =>
      intro nested ht
      have he := h entry List.mem_cons_self
      rw [List.foldl_cons, List.foldl_cons,
        ← ih (fun e hm => h e (List.mem_cons_of_mem _ hm)) _ (ht.insertAt _ (.leaf he))]
      simp [Expansion.write, ht.holder?, Value.receiveAll]
  exact key [] isTree_nil

end Mapping

end Formulary
