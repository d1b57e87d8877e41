import Formulary.Calculator.Reading
import Formulary.Proofs.Expr.Evaluation
import Formulary.Proofs.Table

/-!
# Reading as a function

Reading changes a calculator, since parsed texts go into its cache. But what is learnt is only what
parsing would give again: the tree that a calculator finds for an expression (`Calculator.treeOf`)
is the same before and after. So a computation that reads and learns answers what a function of the
calculator answers.

Main results: `run_resolve` (finding a tree) and `run_dependenciesOfOne_of_entries?` (finding the
names without a value in it while data is bound).
-/

namespace Formulary

namespace Value

theorem expr?_of_text? {v : Value} {s : String} (h : v.text? = some s) : v.expr? = Option.none := by
  fun_induction text? v with
  | case1 => rfl
  | case2 identity content ih => exact ih h
  | case3 => cases h

end Value

/-! ### Usual settings -/

/-- The builtins have different names, so each of them is registered in its place. -/
theorem Registry.builtins_eq :
    Registry.builtins = Builtin.all.map fun b => (b.function.name, b.function) := by
  have hnodup : (Table.keys (Builtin.all.map fun b => (b.function.name, b.function))).Nodup := by
    decide
  rw [← Table.ofPairs_of_nodup hnodup, Table.ofPairs, Table.insertAll, List.foldl_map]
  rfl

theorem Setting.initial_eq (sheet : Sheet) : Setting.initial sheet =
    ⟨Builtin.all.map fun b => (b.function.name, b.function), [], true, sheet⟩ := by
  rw [Setting.initial, Registry.builtins_eq]

namespace Calculator

/-! ### Trees -/

/-- The tree that a calculator finds for an expression. -/
def treeOf (setting : Setting) (c : Calculator) (expression : Value) : Except Error Expr :=
  match c.cached? expression with
  | some v =>
    match v.expr? with
    | some e => .ok e
    | none => .error .missingPart
  | none =>
    match expression.expr?, expression.text? with
    | some e, _ => .ok e
    | none, some s => c.parse setting s
    | none, none => .ok (.literal expression)

/-- What a text spells does not depend on what is bound or known of it. -/
theorem parse_congr {setting : Setting} {c c' : Calculator}
    (hcase : c'.bindings.caseSensitive = c.bindings.caseSensitive)
    (haliases : c'.aliases = c.aliases) (hregistry : c'.registry = c.registry)
    (hdefaults : c'.usesDefaults = c.usesDefaults) : c'.parse setting = c.parse setting := by
  have hchain : c'.chain setting = c.chain setting := by rw [chain, chain, hregistry, hdefaults]
  have hfunction : c'.function? setting = c.function? setting := by
    funext name
    rw [function?, function?, hchain]
  funext s
  simp only [parse, lexerOptions, parserOptions, hcase, haliases, hfunction]

/-- What a calculator finds does not depend on what it binds. -/
theorem treeOf_congr {setting : Setting} {c c' : Calculator} (hcache : c'.cache = c.cache)
    (hcase : c'.bindings.caseSensitive = c.bindings.caseSensitive)
    (haliases : c'.aliases = c.aliases) (hregistry : c'.registry = c.registry)
    (hdefaults : c'.usesDefaults = c.usesDefaults) :
    c'.treeOf setting = c.treeOf setting := by
  funext expression
  have hparse : c'.parse setting = c.parse setting :=
    parse_congr hcase haliases hregistry hdefaults
  have hcached : c'.cached? = c.cached? := by
    funext v
    rw [cached?, cached?, hcache]
  rw [treeOf, treeOf, hcached, hparse]

/-- A calculator as it is usually set up, with names bound. -/
def usual (sheet : Sheet) (memory : Memory) : Calculator :=
  { ofPlan (.initial sheet) .usual with bindings := ⟨false, false, memory⟩ }

theorem usual_eq (sheet : Sheet) (memory : Memory) :
    usual sheet memory = ⟨⟨false, false, memory⟩, [], [], true, .ofSeed [], none⟩ := rfl

/-! ### Learning -/

/-- What a calculator may have become by reading: it has learnt what it would have found anyway, and
is the same otherwise. -/
structure Learnt (setting : Setting) (c c' : Calculator) : Prop where
  bindings : c'.bindings = c.bindings
  aliases : c'.aliases = c.aliases
  registry : c'.registry = c.registry
  usesDefaults : c'.usesDefaults = c.usesDefaults
  detached : c'.detached = c.detached
  tree : c'.treeOf setting = c.treeOf setting

namespace Learnt

variable {setting : Setting} {c c' c'' : Calculator}

theorem refl (c : Calculator) : Learnt setting c c := ⟨rfl, rfl, rfl, rfl, rfl, rfl⟩

theorem trans (h : Learnt setting c c') (h' : Learnt setting c' c'') : Learnt setting c c'' where
  bindings := h'.bindings.trans h.bindings
  aliases := h'.aliases.trans h.aliases
  registry := h'.registry.trans h.registry
  usesDefaults := h'.usesDefaults.trans h.usesDefaults
  detached := h'.detached.trans h.detached
  tree := h'.tree.trans h.tree

theorem attached (h : Learnt setting c c') : Learnt setting c.attached c'.attached :=
  ⟨h.bindings, h.aliases, h.registry, h.usesDefaults, rfl, h.tree⟩

theorem memory (h : Learnt setting c c') : c'.memory = c.memory := by
  rw [Calculator.memory, h.bindings]
  rfl

theorem parse (h : Learnt setting c c') : c'.parse setting = c.parse setting :=
  parse_congr (by rw [h.bindings]) h.aliases h.registry h.usesDefaults

theorem view (h : Learnt setting c c') : c'.view = c.view := by
  rw [Calculator.view, h.detached, h.memory]
  rfl

end Learnt

variable {setting : Setting}

theorem cached?_put {c : Calculator} {s : String} (e : Expr) (expression : Value) :
    cached? { c with cache := c.cache.put setting.caching s (.node e) } expression =
      if c.cache.enabled setting.caching ∧ expression.text? = some s then some (.node e)
      else c.cached? expression := by
  simp only [cached?]
  rcases h : expression.text? with - | s'
  · simp
  · simp only [Option.bind_some, Cache.get?_put, Option.some.injEq, eq_comm (a := s')]
    by_cases hs : c.cache.enabled setting.caching ∧ s = s'
    · rw [if_pos hs, if_pos hs]
    · rw [if_neg hs, if_neg hs]

/-- A calculator that puts a parsed text into its cache has learnt. -/
theorem learnt_put {c : Calculator} {s : String} {e : Expr} (hparse : c.parse setting s = .ok e)
    (hcached : c.cached? (.text s) = none) :
    Learnt setting c { c with cache := c.cache.put setting.caching s (.node e) } := by
  refine ⟨rfl, rfl, rfl, rfl, rfl, ?_⟩
  funext expression
  simp only [treeOf, cached?_put]
  by_cases h : c.cache.enabled setting.caching ∧ expression.text? = some s
  · -- the text itself is now found in the cache, where its tree is
    have hnone : c.cached? expression = none := by
      rw [cached?, h.2]
      exact hcached
    rw [if_pos h, hnone]
    simp only [Value.expr?_of_text? h.2, h.2, hparse]
    rfl
  · simp only [if_neg h]
    rfl

/-- Finding the tree of an expression is a function, and the calculator only learns from it. -/
theorem run_resolve (setting : Setting) (expression : Value) (c : Calculator) :
    ∃ c', (resolve setting expression).run c = (c.treeOf setting expression, c') ∧
      Learnt setting c c' := by
  rcases hcached : c.cached? expression with - | v
  · rcases he : expression.expr? with - | e
    · rcases hs : expression.text? with - | s
      · refine ⟨c, ?_, .refl c⟩
        simp [resolve, resolveAnew, treeOf, Stateful.run_bind, hcached, he, hs]
      · rcases hparse : c.parse setting s with fault | e
        · refine ⟨c, ?_, .refl c⟩
          simp [resolve, resolveAnew, treeOf, Stateful.run_bind, hcached, he, hs, hparse]
        · refine ⟨{ c with cache := c.cache.put setting.caching s (.node e) }, ?_, ?_⟩
          · simp [resolve, resolveAnew, treeOf, Stateful.run_bind, hcached, he, hs, hparse]
            rfl
          · refine learnt_put hparse ?_
            rw [cached?, hs] at hcached
            exact hcached
    · refine ⟨c, ?_, .refl c⟩
      simp [resolve, resolveAnew, treeOf, Stateful.run_bind, hcached, he]
  · refine ⟨c, ?_, .refl c⟩
    rcases he : v.expr? with - | e
    · simp [resolve, treeOf, Stateful.run_bind, hcached, he]
    · simp [resolve, treeOf, Stateful.run_bind, hcached, he]

/-- What parsed texts may come into the cache of without ending it, finding a tree does not end. -/
theorem snd_run_resolveAnew {Q : Calculator → Prop}
    (hput : ∀ {c s e}, Q c → c.parse setting s = .ok e →
      Q { c with cache := c.cache.put setting.caching s (.node e) })
    {c : Calculator} (hc : Q c) (expression : Value) :
    Q ((resolveAnew setting expression).run c).2 := by
  rw [resolveAnew]
  rcases expression.expr? with - | e
  · rcases expression.text? with - | s
    · exact hc
    · simp only [Stateful.run_bind, Stateful.run_get, Stateful.run_ofExcept]
      rcases hparse : c.parse setting s with fault | e
      · exact hc
      · exact hput hc hparse
  · exact hc

theorem snd_run_resolve {Q : Calculator → Prop}
    (hput : ∀ {c s e}, Q c → c.parse setting s = .ok e →
      Q { c with cache := c.cache.put setting.caching s (.node e) })
    {c : Calculator} (hc : Q c) (expression : Value) :
    Q ((resolve setting expression).run c).2 := by
  rw [resolve, Stateful.run_bind, Stateful.run_get]
  simp only
  rcases c.cached? expression with - | v
  · exact snd_run_resolveAnew hput hc expression
  · rcases hv : v.expr? with - | e
    · simp only [hv]
      exact hc
    · simp only [hv]
      exact hc

/-! ### Data for a while -/

/-- The calculator with a mapping bound, as an evaluation sees it. -/
def opened (c : Calculator) (data : Mapping) : Calculator :=
  { c with bindings := c.bindings.writeAll data, detached := none }

theorem openData_eq (c : Calculator) (data : Value) :
    c.openData data = match (dataOf data).entries? with
      | some entries => .ok (c.opened entries)
      | none => .error (.notMapping (dataOf data).shown) := by
  simp only [openData, Bindings.enter, Bindings.store]
  rcases (dataOf data).entries? with - | entries
  · rfl
  · rfl

theorem dataOf_map (entries : Mapping) : dataOf (.map entries) = .map entries := by
  cases entries with
  | nil => rfl
  | cons entry rest => rfl

theorem entries?_dataOf_map (entries : Mapping) : (dataOf (.map entries)).entries? = some entries := by
  rw [dataOf_map]
  rfl

/-- Data that is a mapping, or counts as none, binds what is in the mapping. -/
theorem openData_of_entries? (c : Calculator) {data : Value} {entries : Mapping}
    (h : (dataOf data).entries? = some entries) : c.openData data = .ok (c.opened entries) := by
  rw [openData_eq, h]

theorem openData_map (c : Calculator) (entries : Mapping) :
    c.openData (.map entries) = .ok (c.opened entries) :=
  openData_of_entries? c (entries?_dataOf_map entries)

theorem memory_opened_nil (c : Calculator) : (c.opened []).memory = c.memory := by
  rw [opened, memory, Bindings.writeAll]
  rcases h : c.bindings.ignoreNested with - | -
  · simp [Bindings.entriesOf, h, Mapping.flattenUnless, Mapping.flatten, Table.ofPairs]
    rfl
  · simp [Bindings.entriesOf, h, Mapping.flattenUnless]
    rfl

theorem treeOf_opened (c : Calculator) (data : Mapping) :
    (c.opened data).treeOf setting = c.treeOf setting :=
  treeOf_congr rfl rfl rfl rfl rfl

/-- With the same data bound, what has learnt has learnt. -/
theorem Learnt.opened {c c' : Calculator} (h : Learnt setting c c') (data : Mapping) :
    Learnt setting (c.opened data) (c'.opened data) where
  bindings := by rw [Calculator.opened, Calculator.opened, h.bindings]
  aliases := h.aliases
  registry := h.registry
  usesDefaults := h.usesDefaults
  detached := rfl
  tree := by rw [treeOf_opened, treeOf_opened, h.tree]

/-- After the data is gone again, all that is left of a computation that only learns is what it has
learnt. -/
theorem Learnt.closeData {c inside : Calculator} {data : Mapping}
    (h : Learnt setting (c.opened data) inside) : Learnt setting c (closeData c inside) where
  bindings := by
    simp only [Calculator.closeData, Bindings.leave, h.bindings]
    rfl
  aliases := h.aliases
  registry := h.registry
  usesDefaults := h.usesDefaults
  detached := rfl
  tree := by
    have hcase : inside.bindings.caseSensitive = c.bindings.caseSensitive := by
      rw [h.bindings]
      rfl
    rw [← treeOf_opened c data, ← h.tree]
    exact treeOf_congr rfl rfl rfl rfl rfl

/-- Finding the names without a value is a function, and the calculator only learns from it. -/
theorem run_dependenciesOfOne_of_entries? (setting : Setting) (expression : Value) {data : Value}
    {entries : Mapping} (h : (dataOf data).entries? = some entries) (c : Calculator) :
    ∃ c', (dependenciesOfOne setting expression data).run c =
      ((c.treeOf setting expression).bind (·.freeNamesIn (c.opened entries).memory), c') ∧
        Learnt setting c c' := by
  obtain ⟨inside, hrun, hlearnt⟩ := run_resolve setting expression (c.opened entries)
  refine ⟨closeData c inside, ?_, hlearnt.closeData⟩
  rw [treeOf_opened] at hrun
  simp only [dependenciesOfOne, withData, ExceptT.run_mk, openData_of_entries? c h,
    Stateful.run_bind, hrun]
  rcases c.treeOf setting expression with fault | e
  · rfl
  · simp only [Stateful.run_get, Stateful.run_ofExcept, hlearnt.memory]
    rfl

theorem run_dependenciesOfOne (setting : Setting) (expression : Value) (c : Calculator) :
    ∃ c', (dependenciesOfOne setting expression .none).run c =
      ((c.treeOf setting expression).bind (·.freeNamesIn c.memory), c') ∧ Learnt setting c c' := by
  rw [← memory_opened_nil c]
  exact run_dependenciesOfOne_of_entries? setting expression rfl c

end Calculator

end Formulary
