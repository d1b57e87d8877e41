import Formulary.Proofs.Calculator.Progress

/-!
# What an outcome depends on

The value of an expression depends on the names that its tree reaches, and on whether the names that
nodes from outside announce are bound. So two calculators, each with its data, give an expression
one outcome if they agree on these names (`outcome_congr`), and if one of them has a value, the
other has it as soon as it keeps what the first one binds (`outcome_mono`).
-/

namespace Formulary

/-! ### Agreement on a tree -/

/-- Whether two memories bind what a tree depends on in the same way. -/
structure Memory.AgreesOn (memory other : Memory) (e : Expr) : Prop where
  reached : ∀ z, memory.Reaches e z → Table.get? memory z = Table.get? other z
  needs : ∀ z ∈ e.needs, Table.has memory z = Table.has other z

/-- Whether a memory keeps what another one binds of the names that a tree depends on. -/
structure Memory.IsKeptOn (memory other : Memory) (e : Expr) : Prop where
  reached : ∀ z v, memory.Reaches e z → Table.get? memory z = some v → Table.get? other z = some v
  needs : ∀ z ∈ e.needs, Table.has memory z = true → Table.has other z = true

theorem Memory.isKeptOn_of_forall {memory other : Memory}
    (h : ∀ z v, Table.get? memory z = some v → Table.get? other z = some v) (e : Expr) :
    memory.IsKeptOn other e := by
  refine ⟨fun z v _ => h z v, fun z _ hhas => ?_⟩
  obtain ⟨v, hv⟩ := Option.isSome_iff_exists.mp hhas
  simp [Table.has, h z v hv]

namespace Expr

variable {memory other : Memory} {e : Expr}

theorem unboundIn_congr (h : memory.AgreesOn other e) : e.unboundIn memory = e.unboundIn other := by
  refine List.filter_congr fun z hz => ?_
  rcases mem_freeNames_iff.mp hz with hz | hz
  · rw [Table.has, h.reached z (.here hz), ← Table.has]
  · rw [h.needs z hz]

theorem unboundIn_mono (h : memory.IsKeptOn other e) (hbound : (e.unboundIn memory).isEmpty = true) :
    (e.unboundIn other).isEmpty = true := by
  rw [unboundIn, List.isEmpty_iff, List.filter_eq_nil_iff] at hbound ⊢
  intro z hz
  have hhas : Table.has memory z = true := by
    simpa using hbound z hz
  rcases mem_freeNames_iff.mp hz with hz | hz
  · obtain ⟨v, hv⟩ := Option.isSome_iff_exists.mp hhas
    simp [Table.has, h.reached z v (.here hz) hv]
  · simp [h.needs z hz hhas]

end Expr

namespace Calculator

open Ensemble

variable {library : Library} {setting : Setting} {step calls : Nat} {c c' : Calculator}
  {data data' : Mapping} {expression : Value}

/-! ### Values -/

theorem valueOf_congr (htree : c'.treeOf setting expression = c.treeOf setting expression)
    (h : ∀ e, c.treeOf setting expression = .ok e →
      (c.opened data).memory.AgreesOn (c'.opened data').memory e) :
    c.valueOf library setting step data expression =
      c'.valueOf library setting step data' expression := by
  rcases he : c.treeOf setting expression with fault | e
  · rw [valueOf_of_error he, valueOf_of_error (htree.trans he)]
  · rw [valueOf_of_ok he, valueOf_of_ok (htree.trans he), Expr.unboundIn_congr (h e he),
      Expr.evalWithin_congr _ (h e he).reached]

theorem valueOf_mono (htree : c'.treeOf setting expression = c.treeOf setting expression)
    (h : ∀ e, c.treeOf setting expression = .ok e →
      (c.opened data).memory.IsKeptOn (c'.opened data').memory e)
    {k k' : Nat} {v : Value}
    (hv : (c.valueOf library setting step data expression).run k = (.ok v, k')) :
    (c'.valueOf library setting step data' expression).run k = (.ok v, k') := by
  rcases he : c.treeOf setting expression with fault | e
  · rw [valueOf_of_error he] at hv
    cases hv
  · rw [valueOf_of_ok he] at hv
    rw [valueOf_of_ok (htree.trans he)]
    split at hv
    · next hbound =>
      rw [if_pos (Expr.unboundIn_mono (h e he) hbound)]
      exact Expr.evalWithin_mono _ (h e he).reached _ hv
    · cases hv

/-! ### Outcomes -/

section

variable (htree : c'.treeOf setting = c.treeOf setting)
include htree

theorem forEach_valueOf_congr
    (h : ∀ w ∈ expression.singles, ∀ e, c.treeOf setting w = .ok e →
      (c.opened data).memory.AgreesOn (c'.opened data').memory e) :
    forEach (c.valueOf library setting step data) expression =
      forEach (c'.valueOf library setting step data') expression :=
  forEach_rel Correspondence.eq _ _ expression fun w hw =>
    valueOf_congr (congrFun htree w) (h w hw)

/-- Values that an expression, or each of a nested list of them, has with some data it keeps with
data that binds all that they depend on in the same way, and maybe more of it. -/
theorem forEach_valueOf_mono
    (h : ∀ w ∈ expression.singles, ∀ e, c.treeOf setting w = .ok e →
      (c.opened data).memory.IsKeptOn (c'.opened data').memory e)
    {k k' : Nat} {v : Value}
    (hv : (forEach (c.valueOf library setting step data) expression).run k = (.ok v, k')) :
    (forEach (c'.valueOf library setting step data') expression).run k = (.ok v, k') :=
  forEach_rel Correspondence.succeeding _ (c'.valueOf library setting step data') expression
    (fun w hw _ _ _ hu => valueOf_mono (congrFun htree w) (h w hw) hu) k v k' hv

variable {leave : Nat → Nat → Value → Value}

theorem outcome_congr
    (h : ∀ w ∈ expression.singles, ∀ e, c.treeOf setting w = .ok e →
      (c.opened data).memory.AgreesOn (c'.opened data').memory e) :
    c.outcome library setting step calls leave data expression =
      c'.outcome library setting step calls leave data' expression := by
  rw [outcome, outcome, forEach_valueOf_congr htree h]

theorem outcome_mono
    (h : ∀ w ∈ expression.singles, ∀ e, c.treeOf setting w = .ok e →
      (c.opened data).memory.IsKeptOn (c'.opened data').memory e)
    {v : Value} (hv : c.outcome library setting step calls leave data expression = .ok v) :
    c'.outcome library setting step calls leave data' expression = .ok v := by
  rw [outcome] at hv ⊢
  rcases hrun : (forEach (c.valueOf library setting step data) expression).run calls with
    ⟨fault | u, k⟩
  · simp only [hrun] at hv
    split at hv <;> cases hv
  · rw [forEach_valueOf_mono htree h hrun]
    rw [hrun] at hv
    exact hv

end

/-! ### Names that are solved -/

variable {t : Table String Value}

theorem get?_opened_ofNames (h : c.bindings.IsFlat t) (z : String) :
    Table.get? (c.opened (Mapping.ofNames t)).memory z =
      (Table.get? t z).or (Table.get? c.memory z) :=
  Bindings.get?_writeAll_ofNames h z

/-- A tree comes to no more of the names with some of them solved than it does without, unless it
does through a formula that one of them was solved to. -/
theorem reaches_of_opened (hflat : c.bindings.IsFlat t) {names : List String}
    (hformulas : ∀ y v tree, Table.get? t y = some v → v.expr? = some tree →
      ∀ z, c.memory.Reaches tree z → z ∉ names)
    {e : Expr} {z : String} (h : (c.opened (Mapping.ofNames t)).memory.Reaches e z)
    (hz : z ∈ names) : c.memory.Reaches e z := by
  induction h with
  | here h => exact .here h
  | @behind e name v formula other hi hv hf _ ih =>
    rw [get?_opened_ofNames hflat] at hv
    rcases Option.or_eq_some_iff.mp hv with hv | ⟨-, hv⟩
    · exact absurd hz (hformulas name v formula hv hf other (ih hz))
    · exact .behind hi hv hf (ih hz)

/-- What the graph of a solve has to show, and what its results have to be like, so that it knows of
everything that an expression comes to. Nothing is known of the items of a list, nor of a formula
that a name is solved to; and unless mappings are promised to be flat, the values of a mapping are
bound under names of their own, of which nothing is known either. -/
structure IsShown (setting : Setting) (c : Calculator) (named : List Named) (p : Progress) :
    Prop where
  items : ∀ x ∈ named, readsNames x.expression = false → ∀ w ∈ x.expression.singles,
    ∀ tree, c.treeOf setting w = .ok tree →
      ∀ z, c.memory.Reaches tree z ∨ z ∈ tree.needs → z ∉ namesOf named
  formulas : ∀ x ∈ named, ∀ v tree, Table.get? p.results x.name = some v →
    v.expr? = some tree → ∀ z, c.memory.Reaches tree z → z ∉ namesOf named
  flat : c.bindings.ignoreNested = true ∨
    ∀ x ∈ named, ∀ v, Table.get? p.results x.name = some v → v.isMap = false

theorem singles_of_readsNames (h : readsNames expression = true) :
    expression.singles = [expression] := by
  cases expression with
  | list items => simp [readsNames, Value.text?, Value.expr?] at h
  | tuple items => simp [readsNames, Value.text?, Value.expr?] at h
  | _ => rfl

/-- What is neither a text nor a tree stands for itself. -/
theorem treeOf_of_readsNames (h : readsNames expression = false) :
    c.treeOf setting expression = .ok (.literal expression) := by
  obtain ⟨htext, hexpr⟩ : expression.text? = none ∧ expression.expr? = none := by
    simpa [readsNames] using h
  simp [treeOf, cached?, htext, hexpr]

/-- Only a text or a tree depends on names that are solved. -/
theorem IsShown.readsNames {named : List Named} {p : Progress} (h : IsShown setting c named p)
    {x : Named} (hx : x ∈ named) {w : Value} (hw : w ∈ x.expression.singles) {e : Expr}
    (he : c.treeOf setting w = .ok e) {z : String} (hmem : z ∈ namesOf named)
    (hz : c.memory.Reaches e z ∨ z ∈ e.needs) :
    readsNames x.expression = true ∧ w = x.expression := by
  rcases hr : Ensemble.readsNames x.expression with - | -
  · exact absurd hmem (h.items x hx hr w hw e he z hz)
  · rw [singles_of_readsNames hr] at hw
    exact ⟨rfl, List.mem_singleton.mp hw⟩

/-- Without lists, results that are neither formulas nor mappings are enough. -/
theorem isShown_of_results {named : List Named} {p : Progress}
    (hexpressions : ∀ x ∈ named, x.expression.singles = [x.expression])
    (hresults : ∀ x ∈ named, ∀ v, Table.get? p.results x.name = some v →
      v.expr? = none ∧ v.isMap = false) : IsShown setting c named p := by
  refine ⟨?_, fun x hx v tree hv htree => ?_, .inr fun x hx v hv => (hresults x hx v hv).2⟩
  · intro x hx hr w hw tree htree z hz
    rw [hexpressions x hx] at hw
    obtain rfl := List.mem_singleton.mp hw
    obtain rfl := Except.ok.inj ((treeOf_of_readsNames hr).symm.trans htree)
    rcases hz with hz | hz
    · cases hz with
      | here h => cases h
      | behind h => cases h
    · cases hz
  · rw [(hresults x hx v hv).1] at htree
    cases htree

/-- A name without a value that a text or a tree depends on is among the names that it reads, if
these can be found. -/
theorem mem_reads_of_dependsOn {names reads : List String} (hreads : readsNames expression = true)
    {e : Expr} (he : c.treeOf setting expression = .ok e) {z : String}
    (hz : c.memory.Reaches e z ∨ z ∈ e.needs) (hnone : Table.get? c.memory z = none)
    (hmem : z ∈ names) (h : c.readsOf setting names expression = .ok reads) : z ∈ reads := by
  rw [readsOf, if_pos hreads, he] at h
  obtain ⟨found, hfound, hfiltered⟩ := Except.bind_eq_ok_iff.mp (show e.freeNamesIn c.memory >>= _ =
    .ok reads from h)
  obtain rfl := Except.ok.inj hfiltered
  refine List.mem_filter.mpr ⟨?_, decide_eq_true hmem⟩
  rcases hz with hz | hz
  · exact Memory.mem_of_freeNamesIn_of_reaches hfound hz hnone
  · exact (Expr.mem_of_freeNamesBy_iff hfound).mpr (.inr hz)

/-- The formulas that names are solved to come to none of the names, if results do not. -/
theorem not_mem_of_get?_solved {named xs : List Named} {p : Progress}
    (hshown : IsShown setting c named p) {answers : Answers} (hnodup : (namesOf xs).Nodup)
    (hperm : xs.Perm named)
    (hsolve : solveBy (c.equations library setting step calls answers) .none xs = .ok p)
    {missing : List String} {part : Table String Value} (hpart : IsWithout missing p.solved part)
    {y : String} {v : Value} {tree : Expr} (hv : Table.get? part y = some v)
    (htree : v.expr? = some tree) (z : String) (hz : c.memory.Reaches tree z) :
    z ∉ namesOf named := by
  obtain ⟨x, hx, -, w, hw, hexpr, -⟩ :=
    exists_result_of_get?_solved hnodup hsolve (hpart.get?_of_get? hv)
  exact hshown.formulas x (hperm.mem_iff.mp hx) w tree hw (hexpr ▸ htree) z hz

end Calculator

end Formulary
