import Formulary.Expr.FreeNames
import Formulary.Proofs.Table
import Mathlib.Logic.Relation

/-!
# What an expression reads

An evaluation looks up the identifiers of a tree, and where one of them is bound to a formula, the
identifiers of that formula, and so on: these are the names that the tree reaches
(`Memory.Reaches`). A name without a value that a tree reaches is among its free names, if the
search for them comes to an end (`mem_of_freeNamesIn_of_reaches`).

A node from outside announces names that no evaluation looks up. They are free names all the same,
so a tree's names are its identifiers and its needs (`Expr.mem_namesBy_iff`). From both kinds of
names formulas lead on to others, and the free names without a value are exactly what they lead to
(`mem_of_freeNamesIn_iff`).
-/

namespace Formulary

/-! ### The names in a tree -/

mutual

/-- The names that an evaluation of a tree may look up. -/
def Expr.identifiers : Expr → List String
  | .literal _ | .keyed _ | .given .. | .asking .. => []
  | .identifier name => [name]
  | .negation e => e.identifiers
  | .binary _ l r => l.identifiers ++ r.identifiers
  | .call _ args => Expr.allIdentifiers args
  | .choice c t e => c.identifiers ++ (t.identifiers ++ e.identifiers)

/-- The names that evaluations of several trees may look up. -/
def Expr.allIdentifiers : List Expr → List String
  | [] => []
  | e :: es => e.identifiers ++ Expr.allIdentifiers es

end

mutual

/-- The names that the nodes from outside in a tree announce. -/
def Expr.needs : Expr → List String
  | .literal _ | .keyed _ | .identifier _ => []
  | .given _ needs | .asking _ needs => needs
  | .negation e => e.needs
  | .binary _ l r => l.needs ++ r.needs
  | .call _ args => Expr.allNeeds args
  | .choice c t e => c.needs ++ (t.needs ++ e.needs)

/-- The names that the nodes from outside in several trees announce. -/
def Expr.allNeeds : List Expr → List String
  | [] => []
  | e :: es => e.needs ++ Expr.allNeeds es

end

mutual

/-- The keys that are no texts among those that an evaluation of a tree may look up. -/
def Expr.keys : Expr → List Value
  | .literal _ | .identifier _ | .given .. | .asking .. => []
  | .keyed key => [key]
  | .negation e => e.keys
  | .binary _ l r => l.keys ++ r.keys
  | .call _ args => Expr.allKeys args
  | .choice c t e => c.keys ++ (t.keys ++ e.keys)

/-- The keys that are no texts among those that evaluations of several trees may look up. -/
def Expr.allKeys : List Expr → List Value
  | [] => []
  | e :: es => e.keys ++ Expr.allKeys es

end

/-- The free names of a tree, given the names that each name stands for. -/
def Expr.namesBy (names : String → List String) (e : Expr) : List String :=
  Id.run (e.freeNamesBy fun name => pure (names name))

/-- The free names of several trees, given the names that each name stands for. -/
def Expr.allNamesBy (names : String → List String) (es : List Expr) : List String :=
  Id.run (Expr.allFreeNamesBy (fun name => pure (names name)) es)

namespace Expr

section

variable (names : String → List String)

@[simp] theorem namesBy_literal (v : Value) : (literal v).namesBy names = [] := rfl

@[simp] theorem namesBy_identifier (name : String) : (identifier name).namesBy names = names name :=
  rfl

@[simp] theorem namesBy_keyed (key : Value) : (keyed key).namesBy names = [] := rfl

@[simp] theorem namesBy_negation (e : Expr) :
    (negation e).namesBy names = (e.namesBy names).eraseDups := rfl

@[simp] theorem namesBy_binary (op : Operator) (l r : Expr) :
    (binary op l r).namesBy names = (l.namesBy names ++ r.namesBy names).eraseDups := rfl

@[simp] theorem namesBy_call (f : Function) (args : List Expr) :
    (call f args).namesBy names = (allNamesBy names args).eraseDups := rfl

@[simp] theorem namesBy_choice (c t e : Expr) : (choice c t e).namesBy names =
    (c.namesBy names ++ (t.namesBy names ++ e.namesBy names)).eraseDups := rfl

@[simp] theorem namesBy_given (result : Value) (needs : List String) :
    (given result needs).namesBy names = needs := rfl

@[simp] theorem namesBy_asking (f : Function) (needs : List String) :
    (asking f needs).namesBy names = needs := rfl

@[simp] theorem allNamesBy_nil : allNamesBy names [] = [] := rfl

@[simp] theorem allNamesBy_cons (e : Expr) (es : List Expr) :
    allNamesBy names (e :: es) = e.namesBy names ++ allNamesBy names es := rfl

end

theorem freeNames_eq_namesBy (e : Expr) : e.freeNames = e.namesBy fun name => [name] := rfl

variable {names : String → List String} {z : String}

private theorem mem_names_append {xs ys ids ids' needs needs' : List String}
    (hx : z ∈ xs ↔ (∃ name ∈ ids, z ∈ names name) ∨ z ∈ needs)
    (hy : z ∈ ys ↔ (∃ name ∈ ids', z ∈ names name) ∨ z ∈ needs') :
    z ∈ xs ++ ys ↔ (∃ name ∈ ids ++ ids', z ∈ names name) ∨ z ∈ needs ++ needs' := by
  simp only [List.mem_append, hx, hy, or_and_right, exists_or]
  exact or_or_or_comm

mutual

/-- The free names of a tree are what its identifiers stand for and what it announces. -/
theorem mem_namesBy_iff : ∀ e : Expr, z ∈ e.namesBy names ↔
    (∃ name ∈ e.identifiers, z ∈ names name) ∨ z ∈ e.needs
  | .literal _ | .keyed _ => by simp [identifiers, needs]
  | .given _ needs | .asking _ needs => by simp [identifiers, Expr.needs]
  | .identifier name => by simp [identifiers, needs]
  | .negation e => by
    rw [namesBy_negation, List.mem_eraseDups]
    exact mem_namesBy_iff e
  | .binary _ l r => by
    rw [namesBy_binary, List.mem_eraseDups]
    exact mem_names_append (mem_namesBy_iff l) (mem_namesBy_iff r)
  | .call _ args => by
    rw [namesBy_call, List.mem_eraseDups]
    exact mem_allNamesBy_iff args
  | .choice c t e => by
    rw [namesBy_choice, List.mem_eraseDups]
    exact mem_names_append (mem_namesBy_iff c)
      (mem_names_append (mem_namesBy_iff t) (mem_namesBy_iff e))

theorem mem_allNamesBy_iff : ∀ es : List Expr, z ∈ allNamesBy names es ↔
    (∃ name ∈ allIdentifiers es, z ∈ names name) ∨ z ∈ allNeeds es
  | [] => by simp [allIdentifiers, allNeeds]
  | e :: es => mem_names_append (mem_namesBy_iff e) (mem_allNamesBy_iff es)

end

theorem mem_freeNames_iff {e : Expr} : z ∈ e.freeNames ↔ z ∈ e.identifiers ∨ z ∈ e.needs := by
  rw [freeNames_eq_namesBy, mem_namesBy_iff]
  simp

/-! ### The search in any monad -/

section

variable {m : Type → Type} [Monad m] {behind behind' : String → m (List String)}

mutual

/-- The free names of a tree depend on what its identifiers stand for only. -/
theorem freeNamesBy_congr : ∀ e : Expr, (∀ name ∈ e.identifiers, behind name = behind' name) →
    e.freeNamesBy behind = e.freeNamesBy behind'
  | .literal _, _ | .keyed _, _ | .given .., _ | .asking .., _ => by simp only [freeNamesBy]
  | .identifier name, h => h name List.mem_cons_self
  | .negation e, h => by rw [freeNamesBy, freeNamesBy, freeNamesBy_congr e h]
  | .binary _ l r, h => by
    rw [freeNamesBy, freeNamesBy,
      freeNamesBy_congr l fun name hname => h name (List.mem_append_left _ hname),
      freeNamesBy_congr r fun name hname => h name (List.mem_append_right _ hname)]
  | .call _ args, h => by rw [freeNamesBy, freeNamesBy, allFreeNamesBy_congr args h]
  | .choice c t e, h => by
    have h' := fun name hname => h name (List.mem_append_right _ hname)
    rw [freeNamesBy, freeNamesBy,
      freeNamesBy_congr c fun name hname => h name (List.mem_append_left _ hname),
      freeNamesBy_congr t fun name hname => h' name (List.mem_append_left _ hname),
      freeNamesBy_congr e fun name hname => h' name (List.mem_append_right _ hname)]

theorem allFreeNamesBy_congr : ∀ es : List Expr,
    (∀ name ∈ Expr.allIdentifiers es, behind name = behind' name) →
    Expr.allFreeNamesBy behind es = Expr.allFreeNamesBy behind' es
  | [], _ => by simp only [allFreeNamesBy]
  | e :: es, h => by
    rw [allFreeNamesBy, allFreeNamesBy,
      freeNamesBy_congr e fun name hname => h name (List.mem_append_left _ hname),
      allFreeNamesBy_congr es fun name hname => h name (List.mem_append_right _ hname)]

end

variable [LawfulMonad m]

mutual

/-- If it is known what each name stands for, the search has no effects. -/
theorem freeNamesBy_pure : ∀ e : Expr,
    e.freeNamesBy (m := m) (fun name => pure (names name)) = pure (e.namesBy names)
  | .literal _ | .keyed _ | .given .. | .asking .. | .identifier _ => by simp only [freeNamesBy]; rfl
  | .negation e => by simp [freeNamesBy, freeNamesBy_pure e]
  | .binary _ l r => by simp [freeNamesBy, freeNamesBy_pure l, freeNamesBy_pure r]
  | .call _ args => by simp [freeNamesBy, allFreeNamesBy_pure args]
  | .choice c t e => by
    simp [freeNamesBy, freeNamesBy_pure c, freeNamesBy_pure t, freeNamesBy_pure e]

theorem allFreeNamesBy_pure : ∀ es : List Expr,
    Expr.allFreeNamesBy (m := m) (fun name => pure (names name)) es = pure (allNamesBy names es)
  | [] => by simp only [allFreeNamesBy]; rfl
  | e :: es => by simp [allFreeNamesBy, freeNamesBy_pure e, allFreeNamesBy_pure es]

end

theorem freeNamesBy_eq_pure {e : Expr} (h : ∀ name ∈ e.identifiers, behind name = pure (names name)) :
    e.freeNamesBy behind = pure (e.namesBy names) :=
  (freeNamesBy_congr e h).trans (freeNamesBy_pure e)

end

/-! ### A search that may fail -/

section

variable {behind : String → Except Error (List String)} {found : List String}

mutual

/-- A search that comes to an end has found what each name stands for. -/
theorem exists_behind_of_freeNamesBy : ∀ (e : Expr) {found : List String},
    e.freeNamesBy behind = .ok found → ∀ name ∈ e.identifiers, ∃ names, behind name = .ok names
  | .identifier name, found, h => by
    simpa [identifiers] using ⟨found, h⟩
  | .negation e, found, h => by
    rw [freeNamesBy] at h
    obtain ⟨inner, he, -⟩ := Except.bind_eq_ok_iff.mp h
    exact exists_behind_of_freeNamesBy e he
  | .binary _ l r, found, h => by
    rw [freeNamesBy] at h
    obtain ⟨left, hl, h⟩ := Except.bind_eq_ok_iff.mp h
    obtain ⟨right, hr, -⟩ := Except.bind_eq_ok_iff.mp h
    exact List.forall_mem_append.mpr
      ⟨exists_behind_of_freeNamesBy l hl, exists_behind_of_freeNamesBy r hr⟩
  | .call _ args, found, h => by
    rw [freeNamesBy] at h
    obtain ⟨inner, hargs, -⟩ := Except.bind_eq_ok_iff.mp h
    exact exists_behind_of_allFreeNamesBy args hargs
  | .choice c t e, found, h => by
    rw [freeNamesBy] at h
    obtain ⟨first, hc, h⟩ := Except.bind_eq_ok_iff.mp h
    obtain ⟨second, ht, h⟩ := Except.bind_eq_ok_iff.mp h
    obtain ⟨third, he, -⟩ := Except.bind_eq_ok_iff.mp h
    exact List.forall_mem_append.mpr ⟨exists_behind_of_freeNamesBy c hc, List.forall_mem_append.mpr
      ⟨exists_behind_of_freeNamesBy t ht, exists_behind_of_freeNamesBy e he⟩⟩
  | .literal _, _, _ | .keyed _, _, _ | .given .., _, _ | .asking .., _, _ => by simp [identifiers]

theorem exists_behind_of_allFreeNamesBy : ∀ (es : List Expr) {found : List String},
    Expr.allFreeNamesBy behind es = .ok found →
    ∀ name ∈ allIdentifiers es, ∃ names, behind name = .ok names
  | [], _, _ => by simp [allIdentifiers]
  | e :: es, found, h => by
    rw [allFreeNamesBy] at h
    obtain ⟨first, he, h⟩ := Except.bind_eq_ok_iff.mp h
    obtain ⟨rest, hes, -⟩ := Except.bind_eq_ok_iff.mp h
    exact List.forall_mem_append.mpr
      ⟨exists_behind_of_freeNamesBy e he, exists_behind_of_allFreeNamesBy es hes⟩

end

/-- The free names that a search finds are what the identifiers of the tree stand for and what the
tree announces. -/
theorem mem_of_freeNamesBy_iff {e : Expr} (h : e.freeNamesBy behind = .ok found) :
    z ∈ found ↔ (∃ name ∈ e.identifiers, ∃ names, behind name = .ok names ∧ z ∈ names) ∨
      z ∈ e.needs := by
  have hbehind (name : String) (hname : name ∈ e.identifiers) :
      behind name = .ok ((behind name).toOption.getD []) := by
    obtain ⟨names, hnames⟩ := exists_behind_of_freeNamesBy e h name hname
    rw [hnames]
    rfl
  obtain rfl := Except.ok.inj (h.symm.trans (freeNamesBy_eq_pure hbehind))
  rw [mem_namesBy_iff]
  refine or_congr_left (exists_congr fun name => and_congr_right fun hname => ?_)
  rw [hbehind name hname]
  simp [Except.toOption]

end

end Expr

namespace Memory

open Relation

/-! ### The names behind a name -/

/-- The formula that a name is bound to. -/
def formula? (memory : Memory) (name : String) : Option Expr :=
  (Table.get? memory name).bind Value.expr?

variable {memory : Memory} {z : String}

theorem formula?_eq_some_iff {name : String} {formula : Expr} :
    memory.formula? name = some formula ↔
      ∃ v, Table.get? memory name = some v ∧ v.expr? = some formula :=
  Option.bind_eq_some_iff

/-- What holds of the formulas among the values of a memory holds of what names are bound to. -/
theorem forall_formula?_of_forall_mem {P : Expr → Prop}
    (h : ∀ entry ∈ memory, ∀ formula, entry.2.expr? = some formula → P formula) (name : String)
    (formula : Expr) (hformula : memory.formula? name = some formula) : P formula := by
  obtain ⟨v, hv, hformula⟩ := formula?_eq_some_iff.mp hformula
  exact h (name, v) (Table.mem_of_get? hv) formula hformula

theorem namesBehind_unbound {name : String} (h : Table.get? memory name = none) (depth : Nat) :
    memory.namesBehind depth name = .ok [name] := by
  rw [namesBehind.eq_def]
  simp only [h]
  rfl

theorem namesBehind_zero {name : String} {v : Value} {e : Expr}
    (h : Table.get? memory name = some v) (he : v.expr? = some e) :
    memory.namesBehind 0 name = .error .tooDeep := by
  rw [namesBehind.eq_def]
  simp only [h, he]
  rfl

theorem namesBehind_succ {name : String} {v : Value} {e : Expr}
    (h : Table.get? memory name = some v) (he : v.expr? = some e) (depth : Nat) :
    memory.namesBehind (depth + 1) name = e.freeNamesBy (memory.namesBehind depth) := by
  rw [namesBehind.eq_def]
  simp only [h, he]

theorem namesBehind_plain {name : String} {v : Value} (h : Table.get? memory name = some v)
    (he : v.expr? = none) (depth : Nat) : memory.namesBehind depth name = .ok [] := by
  rw [namesBehind.eq_def]
  simp only [h, he]
  rfl

/-! ### Reached names -/

/-- Whether an evaluation of a tree may come to look up a name, through formulas behind other
names. -/
inductive Reaches (memory : Memory) : Expr → String → Prop
  | here {e : Expr} {name : String} (h : name ∈ e.identifiers) : Reaches memory e name
  | behind {e : Expr} {name : String} {v : Value} {formula : Expr} {other : String}
      (h : name ∈ e.identifiers) (hv : Table.get? memory name = some v)
      (hf : v.expr? = some formula) (hr : Reaches memory formula other) : Reaches memory e other

theorem Reaches.mono {other : Memory} (h : ∀ name v e, Table.get? memory name = some v →
    v.expr? = some e → Table.get? other name = some v) {e : Expr} {name : String}
    (hr : memory.Reaches e name) : other.Reaches e name := by
  induction hr with
  | here h => exact .here h
  | behind hi hv hf _ ih => exact .behind hi (h _ _ _ hv hf) hf ih

/-- What a tree reaches is among any names that those of the tree are among, if no formula leads out
of them. -/
theorem Reaches.mem_of_closed {names : List String} (h : ∀ name ∈ names, ∀ formula,
    memory.formula? name = some formula → formula.identifiers ⊆ names) {e : Expr} {name : String}
    (hr : memory.Reaches e name) (he : e.identifiers ⊆ names) : name ∈ names := by
  induction hr with
  | here hname => exact he hname
  | behind hname hv hf _ ih => exact ih (h _ (he hname) _ (formula?_eq_some_iff.mpr ⟨_, hv, hf⟩))

/-! ### From name to name -/

/-- Whether a tree mentions a name: an evaluation may look it up, or a node from outside announces
it as missing. Of what such a node announces, a name with a value is not missing. -/
def Mentions (memory : Memory) (e : Expr) (name : String) : Prop :=
  name ∈ e.identifiers ∨ name ∈ e.needs ∧ Table.get? memory name = none

/-- Whether a name is bound to a formula that mentions another name. -/
def LeadsOn (memory : Memory) (name other : String) : Prop :=
  ∃ v formula, Table.get? memory name = some v ∧ v.expr? = some formula ∧
    memory.Mentions formula other

/-- A search that comes to an end has found what is behind each mentioned name. -/
theorem exists_namesBehind_of_mentions {depth : Nat} {e : Expr} {found : List String}
    (h : e.freeNamesBy (memory.namesBehind depth) = .ok found) {name : String}
    (hname : memory.Mentions e name) : ∃ names, memory.namesBehind depth name = .ok names := by
  rcases hname with hread | ⟨-, hnone⟩
  · exact Expr.exists_behind_of_freeNamesBy e h name hread
  · exact ⟨_, namesBehind_unbound hnone depth⟩

/-- What formulas lead to is what mentioned names lead to. -/
theorem mem_of_freeNamesBy_namesBehind_iff (hz : Table.get? memory z = none) {depth : Nat}
    {e : Expr} {found : List String} (h : e.freeNamesBy (memory.namesBehind depth) = .ok found) :
    z ∈ found ↔ ∃ name, memory.Mentions e name ∧
      ∃ names, memory.namesBehind depth name = .ok names ∧ z ∈ names := by
  rw [Expr.mem_of_freeNamesBy_iff h]
  constructor
  · rintro (⟨name, hname, hbehind⟩ | hneeds)
    · exact ⟨name, .inl hname, hbehind⟩
    · exact ⟨z, .inr ⟨hneeds, hz⟩, _, namesBehind_unbound hz depth, List.mem_singleton_self z⟩
  · rintro ⟨name, hname | ⟨hneeds, hnone⟩, names, hnames, hmem⟩
    · exact .inl ⟨name, hname, names, hnames, hmem⟩
    · obtain rfl := Except.ok.inj (hnames.symm.trans (namesBehind_unbound hnone depth))
      exact .inr (List.mem_singleton.mp hmem ▸ hneeds)

/-- Without a formula behind it a name leads nowhere. -/
theorem eq_of_reflTransGen {name : String} (hnone : memory.formula? name = none)
    (h : ReflTransGen memory.LeadsOn name z) : name = z := by
  rcases ReflTransGen.cases_head h with rfl | ⟨next, ⟨v, formula, hv, hformula, -⟩, -⟩
  · rfl
  · rw [formula?_eq_some_iff.mpr ⟨v, hv, hformula⟩] at hnone
    cases hnone

/-- What is found behind a name is what it leads to. -/
theorem mem_of_namesBehind_iff (hz : Table.get? memory z = none) {depth : Nat} {name : String}
    {found : List String} (h : memory.namesBehind depth name = .ok found) :
    z ∈ found ↔ ReflTransGen memory.LeadsOn name z := by
  rcases hv : Table.get? memory name with - | v
  · obtain rfl := Except.ok.inj (h.symm.trans (namesBehind_unbound hv depth))
    rw [List.mem_singleton]
    constructor
    · rintro rfl
      exact .refl
    · exact fun hleads => (eq_of_reflTransGen (by simp [formula?, hv]) hleads).symm
  · have hne : name ≠ z := by
      rintro rfl
      rw [hv] at hz
      cases hz
    rcases hformula : v.expr? with - | formula
    · obtain rfl := Except.ok.inj (h.symm.trans (namesBehind_plain hv hformula depth))
      refine iff_of_false (by simp) fun hleads => hne ?_
      exact eq_of_reflTransGen (by simp [formula?, hv, hformula]) hleads
    · cases depth with
      | zero =>
        rw [namesBehind_zero hv hformula] at h
        cases h
      | succ depth =>
        rw [namesBehind_succ hv hformula] at h
        rw [mem_of_freeNamesBy_namesBehind_iff hz h]
        constructor
        · rintro ⟨next, hnext, names, hnames, hmem⟩
          exact .head ⟨v, formula, hv, hformula, hnext⟩ ((mem_of_namesBehind_iff hz hnames).mp hmem)
        · intro hleads
          -- the first step is one through the formula, since the name itself is bound
          rcases ReflTransGen.cases_head hleads with heq | ⟨next, hstep, hrest⟩
          · exact absurd heq hne
          · obtain ⟨w, formula', hw, hformula', hnext⟩ := hstep
            obtain rfl := Option.some.inj (hv.symm.trans hw)
            obtain rfl := Option.some.inj (hformula.symm.trans hformula')
            obtain ⟨names, hnames⟩ := exists_namesBehind_of_mentions h hnext
            exact ⟨next, hnext, names, hnames, (mem_of_namesBehind_iff hz hnames).mpr hrest⟩

/-- **The free names without a value** are what the mentioned names lead to, from formula to
formula. -/
theorem mem_of_freeNamesIn_iff (hz : Table.get? memory z = none) {e : Expr} {found : List String}
    (h : e.freeNamesIn memory = .ok found) :
    z ∈ found ↔ ∃ name, memory.Mentions e name ∧ ReflTransGen memory.LeadsOn name z := by
  rw [mem_of_freeNamesBy_namesBehind_iff hz h]
  constructor
  · rintro ⟨name, hname, names, hnames, hmem⟩
    exact ⟨name, hname, (mem_of_namesBehind_iff hz hnames).mp hmem⟩
  · rintro ⟨name, hname, hleads⟩
    obtain ⟨names, hnames⟩ := exists_namesBehind_of_mentions h hname
    exact ⟨name, hname, names, hnames, (mem_of_namesBehind_iff hz hnames).mpr hleads⟩

/-- What is reached is mentioned, or formulas lead on to it. -/
theorem Reaches.exists_reflTransGen {e : Expr} (hr : memory.Reaches e z) :
    ∃ name, memory.Mentions e name ∧ ReflTransGen memory.LeadsOn name z := by
  induction hr with
  | here h => exact ⟨_, .inl h, .refl⟩
  | behind h hv hf _ ih =>
    obtain ⟨next, hnext, hleads⟩ := ih
    exact ⟨_, .inl h, .head ⟨_, _, hv, hf, hnext⟩ hleads⟩

/-- **The free names are complete**: a name without a value that an evaluation of a tree may come
to look up is one of its free names. -/
theorem mem_of_freeNamesIn_of_reaches {e : Expr} {found : List String}
    (h : e.freeNamesIn memory = .ok found) (hr : memory.Reaches e z)
    (hz : Table.get? memory z = none) : z ∈ found :=
  (mem_of_freeNamesIn_iff hz h).mpr hr.exists_reflTransGen

end Memory

end Formulary
