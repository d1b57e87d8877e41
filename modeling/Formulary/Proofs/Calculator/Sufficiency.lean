import Formulary.Proofs.Calculator.Solution
import Formulary.Proofs.Function.Failures

/-!
# Binding what is reported is enough

The names that `dependencies` reports are found by opening formulas, before anything is evaluated.
An evaluation first looks whether the names in the tree itself are bound, and then looks names up as
it comes to them, through formulas behind formulas. Both go the same ways: a name that the
evaluation comes to is reached (`Memory.Reaches`), and a reached name without a value is reported
(`Memory.mem_of_freeNamesIn_of_reaches`). So if the reported names are bound to values that are no
formulas, every reached name has a value, and no evaluation fails for lack of one
(`kind_ne_unbound_of_run_dependencies`).

Functions do not complain about names either: they fail for reasons that lie in values (see
`Formulary.Proofs.Function.Failures`).
-/

namespace Formulary

/-! ### Allowed failures -/

/-- Whether a computation on a state fails only in ways that are allowed. -/
def FailsOnly {σ α : Type} (Allowed : Error → Prop) (run : Stateful σ α) : Prop :=
  ∀ k fault, (run.run k).1 = .error fault → Allowed fault

namespace FailsOnly

variable {σ α β : Type} {Allowed : Error → Prop}

theorem pure (a : α) : FailsOnly Allowed (Pure.pure a : Stateful σ α) := by
  rintro k fault ⟨⟩

theorem throw {fault : Error} (h : Allowed fault) :
    FailsOnly Allowed (MonadExcept.throw fault : Stateful σ α) := by
  rintro k _ ⟨⟩
  exact h

theorem ofExcept {result : Except Error α} (h : ∀ fault, result = .error fault → Allowed fault) :
    FailsOnly Allowed (MonadExcept.ofExcept result : Stateful σ α) := by
  intro k fault hk
  rw [Stateful.run_ofExcept] at hk
  exact h fault hk

theorem bind {x : Stateful σ α} {f : α → Stateful σ β} (hx : FailsOnly Allowed x)
    (hf : ∀ a, FailsOnly Allowed (f a)) : FailsOnly Allowed (x >>= f) := by
  intro k fault h
  rw [Stateful.run_bind] at h
  rcases hrun : x.run k with ⟨other | a, k'⟩
  · rw [hrun] at h
    cases h
    exact hx k fault (by rw [hrun])
  · rw [hrun] at h
    exact hf a k' fault h

theorem get {f : σ → Stateful σ β} (hf : ∀ k, FailsOnly Allowed (f k)) :
    FailsOnly Allowed (do f (← MonadState.get)) := fun k => hf k k

/-- What is caught goes on to the handler, which gets allowed failures only. -/
theorem tryCatch {x : Stateful σ α} {handle : Error → Stateful σ α} (hx : FailsOnly Allowed x)
    (hhandle : ∀ fault, Allowed fault → FailsOnly Allowed (handle fault)) :
    FailsOnly Allowed (MonadExcept.tryCatch x handle) := by
  intro k fault h
  rw [Stateful.run_tryCatch] at h
  rcases hrun : x.run k with ⟨caught | a, k'⟩
  · rw [hrun] at h
    exact hhandle caught (hx k caught (by rw [hrun])) k' fault h
  · rw [hrun] at h
    cases h

/-- Failing only as is allowed, as a relation of a computation with itself. -/
def stepwise (σ : Type) (Allowed : Error → Prop) : Stepwise (Stateful σ) (Stateful σ) where
  rel x _ := FailsOnly Allowed x
  pure := pure
  bind := bind

end FailsOnly

/-! ### Trees -/

section

variable {σ : Type} {Allowed : Error → Prop}

theorem FailsOnValues.failsOnly {α : Type} {result : Except Error α} (h : FailsOnValues result)
    (hvalues : ∀ fault : Error, fault.kind.isOfValues = true → Allowed fault) :
    FailsOnly Allowed (MonadExcept.ofExcept result : Stateful σ α) :=
  .ofExcept fun fault hfault => hvalues fault (h fault hfault)

/-- Where failures that lie in values are allowed, operators fail only as is allowed. -/
theorem FailsOnly.ofOperators
    (hvalues : ∀ fault : Error, fault.kind.isOfValues = true → Allowed fault) :
    (stepwise σ Allowed).OfOperators where
  neg v := v.failsOnValues_neg.failsOnly hvalues
  apply op v w := (op.failsOnValues_apply v w).failsOnly hvalues

/-- **A tree** fails for lack of a name that it reaches, as the functions do that it can come to
call, for reasons that lie in values, or because too many formulas are open at once. -/
theorem Expr.failsOnly_evalWithin {memory : Memory}
    {call : Function → List Value → Stateful σ Value} {Good : Function → Prop}
    (hvalues : ∀ fault : Error, fault.kind.isOfValues = true → Allowed fault)
    (hdeep : Allowed .tooDeep) (hcall : ∀ f, Good f → ∀ args, FailsOnly Allowed (call f args))
    (hgood : ∀ z v, Table.get? memory z = some v → ∀ f ∈ v.functions, Good f) (depth : Nat)
    {e : Expr} (hmissing : ∀ z, memory.Reaches e z → Table.get? memory z = none →
      Allowed (.unbound [z] none))
    (he : ∀ f ∈ e.functions, Good f) :
    FailsOnly Allowed (e.evalWithin (memory.surroundingsWith call) depth) := by
  -- The good trees are those that reach no other missing names, and call good functions only.
  refine evalWithin_stepwise (FailsOnly.stepwise σ Allowed) (memory.surroundingsWith call)
    (memory.surroundingsWith call) (fun e => (∀ z, memory.Reaches e z → Table.get? memory z = none →
      Allowed (.unbound [z] none)) ∧ ∀ f ∈ e.functions, Good f)
    (FailsOnly.ofOperators hvalues) (.throw hdeep) (fun key => ?_) ?_
    (fun he f hf => hcall f (he.2 f hf)) depth ⟨hmissing, he⟩
  · show FailsOnly Allowed _
    rw [Memory.evalBy_keyed]
    exact .throw (hvalues _ rfl)
  -- Behind a name is nothing, a value, or a formula with fewer formulas to open.
  · intro formula _ e ⟨hmissing, _⟩ hformula name hmem
    show FailsOnly Allowed _
    rw [Memory.evalBy_identifier]
    rcases hv : Table.get? memory name with - | v
    · exact .throw (hmissing name (.here hmem) hv)
    refine (FailsOnly.stepwise σ Allowed).followed fun e' he' => hformula e' ?_
    refine ⟨fun z hz => hmissing z (.behind hmem hv he' hz), ?_⟩
    rw [← Value.functions_of_expr? he']
    exact hgood name v hv

end

/-- The single expressions of a nested list fail as each of them does. -/
theorem Ensemble.failsOnly_forEach {σ : Type} {Allowed : Error → Prop}
    {one : Value → Stateful σ Value} (v : Value)
    (h : ∀ w ∈ v.singles, FailsOnly Allowed (one w)) : FailsOnly Allowed (forEach one v) :=
  forEach_stepwise (FailsOnly.stepwise σ Allowed) one one v h

/-! ### Functions -/

/-- A function that runs no routine fails as the spreadsheet library does or for reasons that lie in
its arguments. -/
theorem Function.failsOnly_applyPure {Allowed : Error → Prop}
    (hvalues : ∀ fault : Error, fault.kind.isOfValues = true → Allowed fault) {sheet : Sheet}
    {f : Function} (hbody : ∀ key target, f.body ≠ .routine key target)
    (hsheet : ∀ name, f.body = .sheet name → sheet.FailsOnly Allowed name) {args : List Value}
    {fault : Error} (h : f.applyPure sheet args = .error fault) : Allowed fault := by
  rw [applyPure] at h
  split at h
  · split at h
    · next b _ => exact hvalues fault (b.failsOnValues_apply args fault h)
    · next name hname => exact Sheet.failsOnly_apply hvalues (hsheet name hname) h
    · next key target hroutine => exact absurd hroutine (hbody key target)
  · cases h
    exact hvalues .wrongType rfl

theorem Function.IsOwn.failsOnly_counted {library : Library} {sheet : Sheet} {f : Function}
    (h : f.IsOwn library sheet) {Allowed : Error → Prop}
    (hvalues : ∀ fault : Error, fault.kind.isOfValues = true → Allowed fault) (step : Nat)
    (args : List Value) : FailsOnly Allowed (f.counted library sheet step args) := by
  have hpure (hbody : ∀ key target, f.body ≠ .routine key target) :
      FailsOnly Allowed (MonadExcept.ofExcept (f.applyPure sheet args) : Counting Value) :=
    .ofExcept fun fault hfault => hvalues fault
      (failsOnly_applyPure (fun _ hkind => hkind) hbody h.failsOnly hfault)
  rw [counted]
  rcases hbody : f.body with b | name | ⟨key, target⟩
  · exact hpure (by simp [hbody])
  · exact hpure (by simp [hbody])
  · simp only [h.routine key target hbody]
    split
    · exact .throw (hvalues _ rfl)
    · exact .throw (hvalues _ rfl)


/-! ### Plain data -/

mutual

/-- Whether a value is no tree, and no mapping with a tree at a leaf. -/
def Value.isTreeless : Value → Bool
  | .node _ => false
  | .map entries => Value.entriesTreeless entries
  | .object _ content => content.isTreeless
  | _ => true

/-- Whether no value of a mapping is a tree, or has one at a leaf. -/
def Value.entriesTreeless : List (Value × Value) → Bool
  | [] => true
  | (_, v) :: rest => v.isTreeless && Value.entriesTreeless rest

end

theorem Value.entriesTreeless_iff {entries : List (Value × Value)} :
    Value.entriesTreeless entries = true ↔ ∀ entry ∈ entries, entry.2.isTreeless = true := by
  induction entries with
  | nil => simp [entriesTreeless]
  | cons entry rest ih => simp [entriesTreeless, ih]

theorem Value.expr?_of_isTreeless {v : Value} (h : v.isTreeless = true) : v.expr? = Option.none := by
  fun_induction Value.expr? v with
  | case1 e => simp [isTreeless] at h
  | case2 identity content ih =>
    rw [isTreeless] at h
    exact ih h
  | case3 => rfl

mutual

theorem Value.functions_of_isTreeless : ∀ v : Value, v.isTreeless = true → v.functions = []
  | .node _, h => by simp [isTreeless] at h
  | .map entries, h => by
    rw [isTreeless] at h
    rw [functions]
    exact entriesFunctions_of_entriesTreeless entries h
  | .object _ content, h => by
    rw [isTreeless] at h
    rw [functions]
    exact functions_of_isTreeless content h
  | .none, _ | .bool _, _ | .int _, _ | .float _, _ | .complex _, _ | .text _, _ | .list _, _
  | .tuple _, _ | .symbol _, _ | .undefined, _ | .cell .., _ => by simp [functions]

theorem Value.entriesFunctions_of_entriesTreeless : ∀ entries : List (Value × Value),
    Value.entriesTreeless entries = true → Value.entriesFunctions entries = []
  | [], _ => by rw [entriesFunctions]
  | (_, v) :: rest, h => by
    rw [entriesTreeless, Bool.and_eq_true] at h
    rw [entriesFunctions, functions_of_isTreeless v h.1,
      entriesFunctions_of_entriesTreeless rest h.2, List.nil_append]

end

/-- What is treeless everywhere calls nothing. -/
theorem Value.not_mem_functions {entries : Mapping} (h : Value.entriesTreeless entries = true)
    {entry : Value × Value} (hentry : entry ∈ entries) (f : Function) :
    f ∉ entry.2.functions := by
  rw [functions_of_isTreeless _ (entriesTreeless_iff.mp h entry hentry)]
  exact List.not_mem_nil

mutual

theorem Mapping.isTreeless_of_mem_leavesAt : ∀ (v : Value) (path : List Value),
    v.isTreeless = true → ∀ leaf ∈ v.leavesAt path, leaf.2.isTreeless = true
  | .map entries, path, h => by
    rw [Value.isTreeless] at h
    rw [Value.leavesAt]
    exact isTreeless_of_mem_entriesLeaves entries path h
  | .object identity content, path, h => by
    rw [Value.leavesAt]
    split
    · rw [Value.isTreeless] at h
      exact isTreeless_of_mem_leavesAt content path h
    · intro leaf hleaf
      rw [List.mem_singleton] at hleaf
      rw [hleaf]
      exact h
  | .none, _, h | .bool _, _, h | .int _, _, h | .float _, _, h | .complex _, _, h
  | .text _, _, h | .list _, _, h | .tuple _, _, h | .symbol _, _, h | .undefined, _, h
  | .node _, _, h | .cell .., _, h => by
    intro leaf hleaf
    simp only [Value.leavesAt, List.mem_singleton] at hleaf
    rw [hleaf]
    exact h

theorem Mapping.isTreeless_of_mem_entriesLeaves : ∀ (entries : List (Value × Value))
    (path : List Value), Value.entriesTreeless entries = true →
      ∀ leaf ∈ leavesAt path entries, leaf.2.isTreeless = true
  | [], _, _ => by simp [leavesAt]
  | (k, v) :: rest, path, h => by
    rw [Value.entriesTreeless, Bool.and_eq_true] at h
    intro leaf hleaf
    rw [leavesAt, List.mem_append] at hleaf
    rcases hleaf with hleaf | hleaf
    · exact isTreeless_of_mem_leavesAt v (path ++ [k]) h.1 leaf hleaf
    · exact isTreeless_of_mem_entriesLeaves rest path h.2 leaf hleaf

end

namespace Bindings

variable {b : Bindings} {data : Mapping} {z : String}

/-- The names that a mapping gives values. -/
def namesGiven (b : Bindings) (data : Mapping) : List String := Table.keys (b.entriesOf data)

theorem isTreeless_of_mem_entriesOf (h : Value.entriesTreeless data = true)
    {entry : String × Value} (hentry : entry ∈ b.entriesOf data) :
    entry.2.isTreeless = true := by
  rw [entriesOf] at hentry
  obtain ⟨written, hw, rfl⟩ := List.mem_map.mp hentry
  rcases hi : b.ignoreNested with - | -
  · rw [hi] at hw
    rcases Table.mem_insertAll hw with hw | ⟨leaf, hleaf, heq⟩
    · cases hw
    · obtain ⟨given, hgiven, rfl⟩ := List.mem_map.mp hleaf
      rw [heq]
      exact Mapping.isTreeless_of_mem_entriesLeaves data [] h given hgiven
  · rw [hi] at hw
    exact Value.entriesTreeless_iff.mp h written hw

theorem get?_writeAll_of_not_mem (h : z ∉ b.namesGiven data) :
    Table.get? (b.writeAll data).memory z = Table.get? b.memory z :=
  Table.get?_insertAll_of_not_mem _ h

/-- What treeless data binds a name to is no formula. -/
theorem exists_get?_writeAll_of_mem (hdata : Value.entriesTreeless data = true)
    (h : z ∈ b.namesGiven data) :
    ∃ v, Table.get? (b.writeAll data).memory z = some v ∧ v.expr? = none := by
  obtain ⟨entry, hentry, hget⟩ := Table.exists_get?_insertAll_of_mem b.memory h
  exact ⟨entry.2, hget, Value.expr?_of_isTreeless (isTreeless_of_mem_entriesOf hdata hentry)⟩

end Bindings

/-! ### Reported names -/

namespace Calculator

variable {setting : Setting} {data : Value} {entries : Mapping}

theorem exists_treeOf_of_run_dependenciesOfOne (hdata : (dataOf data).entries? = some entries)
    {expression : Value} {names : List String} {c c' : Calculator}
    (h : (dependenciesOfOne setting expression data).run c = (.ok names, c')) :
    Learnt setting c c' ∧ ∃ e, c.treeOf setting expression = .ok e ∧
      e.freeNamesIn (c.opened entries).memory = .ok names := by
  obtain ⟨c'', hrun, hlearnt⟩ := run_dependenciesOfOne_of_entries? setting expression hdata c
  obtain ⟨hnames, rfl⟩ := Prod.mk.inj (h.symm.trans hrun)
  refine ⟨hlearnt, ?_⟩
  rcases he : c.treeOf setting expression with fault | e
  · rw [he] at hnames
    cases hnames
  · rw [he] at hnames
    exact ⟨e, rfl, hnames.symm⟩

mutual

/-- What is reported for a nested list of expressions are the names without a value of every single
one of them. -/
theorem exists_treeOf_of_run_dependencies (hdata : (dataOf data).entries? = some entries) :
    ∀ (expression : Value) {names : List String} {c c' : Calculator},
      (dependencies setting data expression).run c = (.ok names, c') →
      Learnt setting c c' ∧ ∀ w ∈ expression.singles, ∃ e, c.treeOf setting w = .ok e ∧
        ∃ found, e.freeNamesIn (c.opened entries).memory = .ok found ∧ found ⊆ names
  | .list items, names, c, c', h | .tuple items, names, c, c', h => by
    rw [dependencies] at h
    rw [Value.singles]
    exact exists_treeOf_of_run_allDependencies hdata items h
  | .none, names, c, c', h | .bool _, names, c, c', h | .int _, names, c, c', h
  | .float _, names, c, c', h | .complex _, names, c, c', h | .text _, names, c, c', h
  | .map _, names, c, c', h | .symbol _, names, c, c', h | .undefined, names, c, c', h
  | .node _, names, c, c', h | .cell .., names, c, c', h | .object .., names, c, c', h => by
    simp only [dependencies] at h
    simp only [Value.singles, List.forall_mem_singleton]
    obtain ⟨hlearnt, e, he, hfound⟩ := exists_treeOf_of_run_dependenciesOfOne hdata h
    exact ⟨hlearnt, e, he, names, hfound, List.Subset.refl _⟩

theorem exists_treeOf_of_run_allDependencies (hdata : (dataOf data).entries? = some entries) :
    ∀ (expressions : List Value) {names : List String} {c c' : Calculator},
      (allDependencies setting data expressions).run c = (.ok names, c') →
      Learnt setting c c' ∧ ∀ w ∈ Value.allSingles expressions, ∃ e, c.treeOf setting w = .ok e ∧
        ∃ found, e.freeNamesIn (c.opened entries).memory = .ok found ∧ found ⊆ names
  | [], names, c, c', h => by
    rw [allDependencies] at h
    obtain ⟨-, rfl⟩ := Prod.mk.inj h
    exact ⟨.refl c, by simp [Value.allSingles]⟩
  | v :: vs, names, c, c', h => by
    rw [allDependencies] at h
    obtain ⟨front, c₁, hv, hrest⟩ := Stateful.run_bind_eq_ok_iff.mp h
    obtain ⟨back, c₂, hvs, hpure⟩ := Stateful.run_bind_eq_ok_iff.mp hrest
    obtain ⟨hnames, rfl⟩ := Prod.mk.inj hpure
    obtain rfl := Except.ok.inj hnames
    obtain ⟨hlearnt, hfront⟩ := exists_treeOf_of_run_dependencies hdata v hv
    obtain ⟨hlearnt', hback⟩ := exists_treeOf_of_run_allDependencies hdata vs hvs
    refine ⟨hlearnt.trans hlearnt', fun w hw => ?_⟩
    rw [Value.allSingles, List.mem_append] at hw
    rcases hw with hw | hw
    · obtain ⟨e, he, found, hfound, hsub⟩ := hfront w hw
      exact ⟨e, he, found, hfound, List.Subset.trans hsub (List.subset_append_left front back)⟩
    · obtain ⟨e, he, found, hfound, hsub⟩ := hback w hw
      rw [hlearnt.tree] at he
      rw [(hlearnt.opened entries).memory] at hfound
      exact ⟨e, he, found, hfound, List.Subset.trans hsub (List.subset_append_right front back)⟩

end

/-! ### Extended data -/

section

variable {c : Calculator} {given extended : Mapping} {e : Expr} {found : List String}
variable (hplain : Value.entriesTreeless extended = true)
variable (hgiven : c.bindings.namesGiven given ⊆ c.bindings.namesGiven extended)

include hplain hgiven

/-- With treeless data that gives all names a value that other data gives one, no more is reached.
-/
theorem reaches_opened_of_subset {z : String} (h : (c.opened extended).memory.Reaches e z) :
    (c.opened given).memory.Reaches e z := by
  refine h.mono fun name v formula hv hformula => ?_
  have hname : name ∉ c.bindings.namesGiven extended := by
    intro hmem
    obtain ⟨w, hw, hnone⟩ := Bindings.exists_get?_writeAll_of_mem hplain hmem
    obtain rfl := Option.some.inj (hv.symm.trans hw)
    rw [hnone] at hformula
    cases hformula
  calc Table.get? (c.opened given).memory name = Table.get? c.memory name :=
        Bindings.get?_writeAll_of_not_mem fun hmem => hname (hgiven hmem)
    _ = Table.get? (c.opened extended).memory name :=
        (Bindings.get?_writeAll_of_not_mem hname).symm
    _ = some v := hv

/-- **Every reached name has a value** once the names without one are given values. -/
theorem isSome_get?_of_reaches
    (hfound : e.freeNamesIn (c.opened given).memory = .ok found)
    (hnames : found ⊆ c.bindings.namesGiven extended) {z : String}
    (h : (c.opened extended).memory.Reaches e z) :
    (Table.get? (c.opened extended).memory z).isSome = true := by
  by_cases hz : z ∈ c.bindings.namesGiven extended
  · obtain ⟨v, hv, -⟩ := Bindings.exists_get?_writeAll_of_mem hplain hz
    exact Option.isSome_iff_exists.mpr ⟨v, hv⟩
  · rw [Option.isSome_iff_ne_none]
    intro hnone
    have hmemory : Table.get? (c.opened given).memory z = none :=
      (Bindings.get?_writeAll_of_not_mem fun hmem => hz (hgiven hmem)).trans
        ((Bindings.get?_writeAll_of_not_mem hz).symm.trans hnone)
    exact hz (hnames (Memory.mem_of_freeNamesIn_of_reaches hfound
      (reaches_opened_of_subset hplain hgiven h) hmemory))

/-- So no name in the tree itself is missed before it is walked. -/
theorem unboundIn_opened_eq_nil
    (hfound : e.freeNamesIn (c.opened given).memory = .ok found)
    (hnames : found ⊆ c.bindings.namesGiven extended) :
    e.unboundIn (c.opened extended).memory = [] := by
  refine List.filter_eq_nil_iff.mpr fun z hz => ?_
  have hbound : (Table.get? (c.opened extended).memory z).isSome = true := by
    rcases Expr.mem_freeNames_iff.mp hz with hz | hz
    · exact isSome_get?_of_reaches hplain hgiven hfound hnames (.here hz)
    · have hmem := hnames ((Expr.mem_of_freeNamesBy_iff hfound).mpr (.inr hz))
      obtain ⟨v, hv, -⟩ := Bindings.exists_get?_writeAll_of_mem hplain hmem
      exact Option.isSome_iff_exists.mpr ⟨v, hv⟩
  simpa [Table.has, Option.isSome_iff_ne_none] using hbound

/-- **An expression with its reported names bound** fails for reasons that lie in values, or because
too many formulas are open at once. -/
theorem failsOnly_valueOf {setting : Setting} {library : Library} {expression : Value}
    (hc : c.CallsOnly setting (Function.IsOwn library setting.sheet))
    (hexpression : ∀ f ∈ expression.functions, f.IsOwn library setting.sheet)
    (he : c.treeOf setting expression = .ok e)
    (hfound : e.freeNamesIn (c.opened given).memory = .ok found)
    (hnames : found ⊆ c.bindings.namesGiven extended)
    {Allowed : Error → Prop}
    (hvalues : ∀ fault : Error, fault.kind.isOfValues = true → Allowed fault)
    (hdeep : Allowed .tooDeep) (step : Nat) :
    FailsOnly Allowed (c.valueOf library setting step extended expression) := by
  rw [valueOf_of_ok he, unboundIn_opened_eq_nil hplain hgiven hfound hnames, if_pos List.isEmpty_nil]
  refine Expr.failsOnly_evalWithin hvalues hdeep (fun f hf => hf.failsOnly_counted hvalues step)
    (fun z v hv => hc.functions_opened (fun entry hentry f hf => ?_) hv) _
    (fun z hz hnone => ?_) (hc.functions_treeOf hexpression he)
  · exact absurd hf (Value.not_mem_functions hplain hentry f)
  · have hbound := isSome_get?_of_reaches hplain hgiven hfound hnames hz
    rw [hnone] at hbound
    cases hbound

end

end Calculator

/-! ### The main result -/

namespace Ensemble

section

variable {data : Value} {entries : Mapping} (h : (Calculator.dataOf data).entries? = some entries)

include h

theorem withData_of_entries? {α : Type} (n : Nat) (body : Run α) :
    withData n data body = withData n (.map entries) body := by
  simp only [withData, Calculator.openData_of_entries? _ h, Calculator.openData_map]

theorem evaluateStrict_of_entries? (library : Library) (setting : Setting) (n : Nat)
    (expression : Value) : evaluateStrict library setting n expression data =
      evaluateStrict library setting n expression (.map entries) := by
  simp only [evaluateStrict, evaluateOne, withData_of_entries? h]

end

/-- **Binding what `dependencies` reports is enough**: let the calculator have functions of its own
only, and let data be given that is no formula anywhere, that binds all names that were bound by the
data that the names without a value were reported for, and that binds the reported names. With it no
evaluation fails for lack of a name, before or after the report. -/
theorem kind_ne_unbound_of_run_dependencies {library : Library} {setting : Setting} {n : Nat}
    {e e₁ : Ensemble} {expression data extended : Value} {given entries : Mapping}
    {names : List String}
    (hc : (e.calculator n).CallsOnly setting (Function.IsOwn library setting.sheet))
    (hexpression : ∀ w ∈ expression.singles, ∀ f ∈ w.functions, f.IsOwn library setting.sheet)
    (hdata : (Calculator.dataOf data).entries? = some given)
    (hnames : (onOne n (Calculator.dependencies setting data expression)).run e = (.ok names, e₁))
    (hextended : (Calculator.dataOf extended).entries? = some entries)
    (hplain : Value.entriesTreeless entries = true)
    (hgiven : (e.calculator n).bindings.namesGiven given ⊆
      (e.calculator n).bindings.namesGiven entries)
    (hbound : names ⊆ (e.calculator n).bindings.namesGiven entries)
    {e' : Ensemble} (he' : e' = e ∨ e' = e₁) {fault : Error}
    (hfault : ((evaluateStrict library setting n expression extended).run e').1 = .error fault) :
    fault.kind ≠ .unbound := by
  rw [onOne, ExceptT.run_mk] at hnames
  rcases hrun : (Calculator.dependencies setting data expression).run (e.calculator n) with
    ⟨outcome, c'⟩
  rw [hrun] at hnames
  obtain ⟨rfl, rfl⟩ := Prod.mk.inj hnames
  obtain ⟨hlearnt, htrees⟩ :=
    Calculator.exists_treeOf_of_run_dependencies hdata expression hrun
  have hsame : (e.calculator n).Learnt setting (e'.calculator n) := by
    rcases he' with rfl | rfl
    · exact .refl _
    · rw [calculator_put_self]
      exact hlearnt
  have hfunctions : ∀ entry ∈ entries, ∀ f ∈ entry.2.functions, f.IsOwn library setting.sheet :=
    fun entry hentry f hf => absurd hf (Value.not_mem_functions hplain hentry f)
  obtain ⟨e₂, hstrict, -, -⟩ := follows_evaluateStrict hc hfunctions hexpression e' hsame rfl
  rw [evaluateStrict_of_entries? hextended, hstrict] at hfault
  have hfails : ∀ w ∈ expression.singles, FailsOnly (fun fault : Error => fault.kind ≠ .unbound)
      ((e.calculator n).valueOf library setting e'.step entries w) := by
    intro w hw
    obtain ⟨tree, htree, found, hfound, hsub⟩ := htrees w hw
    exact Calculator.failsOnly_valueOf hplain hgiven hc (hexpression w hw) htree hfound
      (List.Subset.trans hsub hbound)
      (fun fault hkind hunbound => by rw [hunbound] at hkind; cases hkind) (by decide) _
  exact failsOnly_forEach expression hfails _ _ hfault

/-- An ensemble of one calculator, in which `a` stands for a sum. -/
def bindingSum : Ensemble :=
  Ensemble.empty.put 0 (.usual .empty
    [("a", .node (.binary .add (.identifier "w") (.identifier "h")))])

/-- With `w` given, what is reported are the `h` behind `a`, and `d`. With a text for `d` the
evaluation still fails, but for that value. -/
theorem kind_ne_unbound_bindingSum :
    ((onOne 0 (Calculator.dependencies (.initial .empty) (.map [(.text "w", .int 3)])
      (.text "a-d"))).run bindingSum).1 = .ok ["h", "d"] ∧
    ((evaluateStrict (fun _ => none) (.initial .empty) 0 (.text "a-d")
      (.map [(.text "w", .int 3), (.text "h", .int 4), (.text "d", .text "x")])).run
        bindingSum).1 = .error .wrongType ∧
    Error.wrongType.kind ≠ .unbound := by
  have hnames : ((onOne 0 (Calculator.dependencies (.initial .empty) (.map [(.text "w", .int 3)])
      (.text "a-d"))).run bindingSum).1 = .ok ["h", "d"] := by
    rw [bindingSum, Calculator.usual_eq, Setting.initial_eq]
    cbv
  have hfault : ((evaluateStrict (fun _ => none) (.initial .empty) 0 (.text "a-d")
      (.map [(.text "w", .int 3), (.text "h", .int 4), (.text "d", .text "x")])).run
        bindingSum).1 = .error .wrongType := by
    rw [bindingSum, Calculator.usual_eq, Setting.initial_eq]
    cbv
  have hc : (bindingSum.calculator 0).CallsOnly (.initial .empty)
      (Function.IsOwn (fun _ => none) .empty) := by
    rw [bindingSum, calculator_put_self]
    exact Calculator.callsOnly_usual _ (by simp [Value.functions, Expr.functions])
  have hgiven : (bindingSum.calculator 0).bindings.namesGiven [(.text "w", .int 3)] =
      ["w"] := by
    rfl
  have hentries : (bindingSum.calculator 0).bindings.namesGiven
      [(.text "w", .int 3), (.text "h", .int 4), (.text "d", .text "x")] = ["w", "h", "d"] := by
    rfl
  have hunbound := kind_ne_unbound_of_run_dependencies hc
    (by simp [Value.singles, Value.functions])
    (Calculator.entries?_dataOf_map _) (Prod.ext hnames rfl) (Calculator.entries?_dataOf_map _) rfl
    (by simp [hgiven, hentries]) (by simp [hentries]) (.inl rfl) hfault
  exact ⟨hnames, hfault, hunbound⟩

end Ensemble

end Formulary
