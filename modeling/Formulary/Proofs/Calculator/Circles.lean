import Formulary.Proofs.Calculator.Locality
import Formulary.Proofs.Calculator.PassedOn
import Formulary.Proofs.DependencyGraph.Circles
import Formulary.Proofs.Expr.Acyclic

/-!
# Circles among expressions

An expression leads to the names that it mentions, and a name that a calculator binds to a formula
leads to those that the formula mentions. The graph of a solve knows nothing of the formulas in
between: it has an edge wherever one expression leads to another through formulas only. Between the
names of expressions both relations have the same ways (`transGen_dependsOn_iff`), so the graph has
a circle just if some expression leads back to itself (`orderOf_eq`). Then a solve fails before it
evaluates anything, and otherwise it makes no circle of its own (`run_solve_circular`).
-/

namespace Formulary

open Relation

namespace Calculator

open Ensemble

/-- Whether a name leads to another one: its expression mentions it, or the formula does that the
calculator binds it to. -/
inductive LeadsTo (setting : Setting) (c : Calculator) (named : List Named) :
    String → String → Prop
  | expression {x : Named} {tree : Expr} {other : String} (hx : x ∈ named)
      (htree : c.treeOf setting x.expression = .ok tree) (h : c.memory.Mentions tree other) :
      LeadsTo setting c named x.name other
  | formula {name other : String} (h : c.memory.LeadsOn name other) :
      LeadsTo setting c named name other

variable {setting : Setting} {c : Calculator} {named : List Named}

/-! ### The edges of the graph -/

/-- An expression reads the free names of its tree, be it a text, a tree or any other value. -/
theorem readsOf_of_treeOf {names : List String} {expression : Value} {tree : Expr}
    (h : c.treeOf setting expression = .ok tree) :
    c.readsOf setting names expression =
      (tree.freeNamesIn c.memory).map (·.filter (· ∈ names)) := by
  rw [readsOf]
  rcases hreads : readsNames expression with - | -
  · obtain rfl := Except.ok.inj ((treeOf_of_readsNames hreads).symm.trans h)
    rfl
  · rw [h]
    rfl

/-- What an expression is found to read are free names of its tree. -/
theorem exists_freeNamesIn_of_readsOf {names reads : List String} {expression : Value} {tree : Expr}
    (h : c.treeOf setting expression = .ok tree)
    (hreads : c.readsOf setting names expression = .ok reads) :
    ∃ found, tree.freeNamesIn c.memory = .ok found ∧ reads = found.filter (· ∈ names) := by
  rw [readsOf_of_treeOf h] at hreads
  rcases hfound : tree.freeNamesIn c.memory with fault | found
  · rw [hfound] at hreads
    cases hreads
  · rw [hfound] at hreads
    exact ⟨found, rfl, (Except.ok.inj hreads).symm⟩

section

variable {nodes : List (String × List String)}
  (hnodes : c.nodesOf setting (namesOf named) named = .ok nodes)
  (hnodup : (namesOf named).Nodup)
  (htrees : ∀ x ∈ named, ∃ tree, c.treeOf setting x.expression = .ok tree)
  (hunbound : ∀ name ∈ namesOf named, Table.get? c.memory name = none)

include hnodes hnodup htrees

/-- The graph has an edge from an expression to each name of another one among its free names. -/
theorem dependsOn_iff {name other : String} : DependencyGraph.DependsOn nodes name other ↔
    other ∈ namesOf named ∧ ∃ x ∈ named, x.name = name ∧
      ∃ tree, c.treeOf setting x.expression = .ok tree ∧
        ∃ found, tree.freeNamesIn c.memory = .ok found ∧ other ∈ found := by
  obtain ⟨hfst, hall⟩ := nodesOf_eq_ok hnodes
  rw [DependencyGraph.DependsOn, hfst]
  constructor
  · rintro ⟨dependencies, hmem, hother, hadded⟩
    have hname : name ∈ namesOf named := hfst ▸ List.mem_map_of_mem hmem
    obtain ⟨x, hx, rfl⟩ := List.mem_map.mp hname
    obtain ⟨tree, htree⟩ := htrees x hx
    obtain ⟨reads, hreads, hmem'⟩ := hall x hx
    obtain ⟨found, hfound, rfl⟩ := exists_freeNamesIn_of_readsOf htree hreads
    have hsame : dependencies = _ :=
      congrArg Prod.snd (List.inj_on_of_nodup_map (hfst ▸ hnodup) hmem hmem' rfl)
    rw [hsame] at hother
    exact ⟨hadded, x, hx, rfl, tree, htree, found, hfound, List.mem_of_mem_filter hother⟩
  · rintro ⟨hadded, x, hx, rfl, tree, htree, found, hfound, hfree⟩
    obtain ⟨reads, hreads, hmem⟩ := hall x hx
    obtain ⟨found', hfound', rfl⟩ := exists_freeNamesIn_of_readsOf htree hreads
    obtain rfl := Except.ok.inj (hfound.symm.trans hfound')
    exact ⟨_, hmem, List.mem_filter.mpr ⟨hfree, decide_eq_true hadded⟩, hadded⟩

include hunbound

/-- An edge of the graph is a way through formulas. -/
theorem transGen_of_dependsOn {name other : String}
    (h : DependencyGraph.DependsOn nodes name other) :
    TransGen (LeadsTo setting c named) name other := by
  obtain ⟨hother, x, hx, rfl, tree, htree, found, hfound, hfree⟩ :=
    (dependsOn_iff hnodes hnodup htrees).mp h
  obtain ⟨next, hnext, hleads⟩ :=
    (Memory.mem_of_freeNamesIn_iff (hunbound other hother) hfound).mp hfree
  exact .head' (.expression hx htree hnext) (ReflTransGen.mono (fun _ _ => .formula) _ _ hleads)

/-- What expressions mention leads to is an edge of the graph, once it is another expression. -/
theorem dependsOn_of_mentions {x : Named} {tree : Expr} {next other : String} (hx : x ∈ named)
    (htree : c.treeOf setting x.expression = .ok tree) (hnext : c.memory.Mentions tree next)
    (hleads : ReflTransGen c.memory.LeadsOn next other) (hother : other ∈ namesOf named) :
    DependencyGraph.DependsOn nodes x.name other := by
  obtain ⟨reads, hreads, -⟩ := (nodesOf_eq_ok hnodes).2 x hx
  obtain ⟨found, hfound, -⟩ := exists_freeNamesIn_of_readsOf htree hreads
  refine (dependsOn_iff hnodes hnodup htrees).mpr
    ⟨hother, x, hx, rfl, tree, htree, found, hfound, ?_⟩
  exact (Memory.mem_of_freeNamesIn_iff (hunbound other hother) hfound).mpr ⟨next, hnext, hleads⟩

/-- A way to an expression comes, through formulas, to a first one, and from there along edges. -/
theorem exists_first_of_leadsTo {name other : String} (hother : other ∈ namesOf named)
    (h : ReflTransGen (LeadsTo setting c named) name other) :
    ∃ first ∈ namesOf named, ReflTransGen c.memory.LeadsOn name first ∧
      ReflTransGen (DependencyGraph.DependsOn nodes) first other := by
  -- from the end of the way: formulas are put in front of it until an expression makes an edge
  induction h using ReflTransGen.head_induction_on with
  | refl => exact ⟨other, hother, .refl, .refl⟩
  | head hstep _ ih =>
    obtain ⟨first, hfirst, hleads, hedges⟩ := ih
    cases hstep with
    | expression hx htree hnext =>
      have hedge := dependsOn_of_mentions hnodes hnodup htrees hunbound hx htree hnext hleads hfirst
      exact ⟨_, List.mem_map_of_mem hx, .refl, .head hedge hedges⟩
    | formula hnext => exact ⟨first, hfirst, .head hnext hleads, hedges⟩

/-- **Between expressions the graph has the ways that there are.** -/
theorem transGen_dependsOn_iff {name other : String} (hname : name ∈ namesOf named)
    (hother : other ∈ namesOf named) :
    TransGen (DependencyGraph.DependsOn nodes) name other ↔
      TransGen (LeadsTo setting c named) name other := by
  constructor
  · intro h
    exact h.trans_induction_on
      (fun hedge => transGen_of_dependsOn hnodes hnodup htrees hunbound hedge)
      fun _ _ hfirst hsecond => hfirst.trans hsecond
  · intro h
    obtain ⟨next, hstep, hrest⟩ := TransGen.head'_iff.mp h
    obtain ⟨first, hfirst, hleads, hedges⟩ :=
      exists_first_of_leadsTo hnodes hnodup htrees hunbound hother hrest
    cases hstep with
    | expression hx htree hnext =>
      have hedge := dependsOn_of_mentions hnodes hnodup htrees hunbound hx htree hnext hleads hfirst
      exact .head' hedge hedges
    | formula hnext =>
      -- a name without a value has no formula behind it
      obtain ⟨v, formula, hv, -⟩ := hnext
      rw [hunbound name hname] at hv
      cases hv

/-- What the failure for want of an order lists: the expressions on circles and behind them. -/
theorem leadsToCircle_iff {name : String} : LeadsToCircle (DependencyGraph.DependsOn nodes) name ↔
    name ∈ namesOf named ∧ ∃ other ∈ namesOf named,
      ReflTransGen (LeadsTo setting c named) name other ∧
        TransGen (LeadsTo setting c named) other other := by
  have hway := @transGen_dependsOn_iff _ _ _ _ hnodes hnodup htrees hunbound
  constructor
  · intro h
    obtain ⟨next, hedge, -⟩ := h.exists_next
    obtain ⟨-, x, hx, rfl, -⟩ := (dependsOn_iff hnodes hnodup htrees).mp hedge
    have hname : x.name ∈ namesOf named := List.mem_map_of_mem hx
    obtain ⟨other, hleads, hcircle⟩ := h
    obtain ⟨last, -, hback⟩ := TransGen.tail'_iff.mp hcircle
    have hother := ((dependsOn_iff hnodes hnodup htrees).mp hback).1
    refine ⟨hname, other, hother, ?_, (hway hother hother).mp hcircle⟩
    rcases reflTransGen_iff_eq_or_transGen.mp hleads with rfl | hleads
    · exact .refl
    · exact ((hway hname hother).mp hleads).to_reflTransGen
  · rintro ⟨hname, other, hother, hleads, hcircle⟩
    refine ⟨other, ?_, (hway hother hother).mpr hcircle⟩
    rcases reflTransGen_iff_eq_or_transGen.mp hleads with rfl | hleads
    · exact .refl
    · exact ((hway hname hother).mpr hleads).to_reflTransGen

end

/-! ### The order of expressions -/

/-- Whether some expression leads back to itself. -/
def HasCircle (setting : Setting) (c : Calculator) (named : List Named) : Prop :=
  ∃ name ∈ namesOf named, TransGen (LeadsTo setting c named) name name

/-- A single expression that does not mention its own name leads nowhere, where nothing is bound. -/
theorem not_hasCircle_single {x : Named} {tree : Expr} (hmemory : c.memory = [])
    (htree : c.treeOf setting x.expression = .ok tree) (h : ¬ c.memory.Mentions tree x.name) :
    ¬ HasCircle setting c [x] := by
  rintro ⟨name, hname, hback⟩
  obtain rfl := List.mem_singleton.mp hname
  obtain ⟨last, -, hlast⟩ := TransGen.tail'_iff.mp hback
  generalize hname : x.name = name at hlast h
  cases hlast with
  | expression hx htree' hmentions =>
    obtain rfl := List.mem_singleton.mp hx
    obtain rfl := Except.ok.inj (htree.symm.trans htree')
    exact h hmentions
  | formula hleads =>
    obtain ⟨v, formula, hv, -⟩ := hleads
    rw [hmemory] at hv
    cases hv

/-- **There is an order just if no expression leads back to itself**, provided that no formula
does. -/
theorem orderOf_eq (hacyclic : c.memory.IsAcyclic) (hnodup : (namesOf named).Nodup)
    (htrees : ∀ x ∈ named, ∃ tree, c.treeOf setting x.expression = .ok tree)
    (hunbound : ∀ name ∈ namesOf named, Table.get? c.memory name = none) :
    (HasCircle setting c named ∧ ∃ listed,
      c.orderOf setting named none = .error (.circular listed) ∧
      listed.Sublist (namesOf named) ∧
      ∀ name, name ∈ listed ↔ name ∈ namesOf named ∧ ∃ other ∈ namesOf named,
        ReflTransGen (LeadsTo setting c named) name other ∧
          TransGen (LeadsTo setting c named) other other) ∨
    ¬ HasCircle setting c named ∧ ∃ order, c.orderOf setting named none = .ok order := by
  have hall : ∀ x ∈ named, ∃ reads, c.readsOf setting (namesOf named) x.expression = .ok reads := by
    intro x hx
    obtain ⟨tree, htree⟩ := htrees x hx
    obtain ⟨found, hfound⟩ := Expr.exists_freeNamesIn_of_isAcyclic hacyclic tree
    exact ⟨_, by rw [readsOf_of_treeOf htree, hfound]; rfl⟩
  obtain ⟨nodes, hnodes⟩ := exists_nodesOf hall
  have hfst := (nodesOf_eq_ok hnodes).1
  have hdifferent : (nodes.map Prod.fst).Nodup := hfst ▸ hnodup
  obtain ⟨hconsistent, hnames⟩ := DependencyGraph.names_ofNodes hdifferent
  have hreads := DependencyGraph.reads_ofNodes hdifferent
  have horder : c.orderOf setting named none = (DependencyGraph.ofNodes nodes).order := by
    rw [orderOf, hnodes]
    rfl
  have hlisted := @leadsToCircle_iff _ _ _ _ hnodes hnodup htrees hunbound
  -- the graph has a circle just if the expressions have one
  by_cases hcircle : HasCircle setting c named
  · left
    obtain ⟨name, hname, hback⟩ := id hcircle
    have hleads : LeadsToCircle (DependencyGraph.DependsOn nodes) name :=
      hlisted.mpr ⟨hname, name, hname, .refl, hback⟩
    rw [← hreads] at hleads
    obtain ⟨listed, herror, hsublist, hmem⟩ :=
      DependencyGraph.order_of_leadsToCircle hconsistent hleads
    refine ⟨hcircle, listed, horder.trans herror, ?_, fun name => ?_⟩
    · rw [← hfst, ← hnames]
      exact hsublist
    · rw [hmem, hreads, hlisted]
  · right
    have hnone : ∀ name, ¬ LeadsToCircle (DependencyGraph.DependsOn nodes) name := by
      intro name hleads
      obtain ⟨-, other, hother, -, hback⟩ := hlisted.mp hleads
      exact hcircle ⟨other, hother, hback⟩
    rw [← hreads] at hnone
    obtain ⟨order, hok⟩ := DependencyGraph.exists_order_of_forall hconsistent hnone
    exact ⟨hcircle, order, horder.trans hok⟩

end Calculator

namespace Ensemble

open Calculator (LeadsTo HasCircle)

variable {library : Library} {setting : Setting} {n : Nat} {e : Ensemble} {expressions : Value}
  {named : List Named}

/-- **Circles are found exactly, and before anything is evaluated**: let no name of an expression be
bound, and let all expressions be such that they can be read. If some expression leads back to
itself, through other expressions or bound formulas, in whatever branch, the solve fails with the
same circle for every handler, has evaluated nothing and keeps all that is bound. If none does, the
solve fails with a circle only by passing on one that a routine or the handler made; so where these
make none, it fails with a circle just if there is one. The names that an expression mentions are
those of its tree, which a seeded cache may know to be another one than the text spells. -/
theorem run_solve_circular (hacyclic : (e.calculator n).memory.IsAcyclic)
    (hnamed : namedExpressions (e.calculator n).bindings expressions = .ok (named, none))
    (htrees : ∀ x ∈ named, ∃ tree, (e.calculator n).treeOf setting x.expression = .ok tree)
    (hunbound : ∀ name ∈ namesOf named, Table.get? (e.calculator n).memory name = none) :
    (HasCircle setting (e.calculator n) named → ∃ listed e',
      (∀ handler,
        (solve library setting n handler expressions).run e =
          (.error ⟨.circular listed, none⟩, e') ∧
        ∀ q w e₁, ¬ SolveVisits library setting n handler expressions e q w e₁) ∧
      (∀ name, name ∈ listed ↔ name ∈ namesOf named ∧ ∃ other ∈ namesOf named,
        ReflTransGen (LeadsTo setting (e.calculator n) named) name other ∧
          TransGen (LeadsTo setting (e.calculator n) named) other other) ∧
      Learnt setting n e e' ∧ (e'.calculator n).memory = (e.calculator n).memory) ∧
    (∀ handler failure e',
      (solve library setting n handler expressions).run e = (.error failure, e') →
      failure.error.kind = .circular → HasCircle setting (e.calculator n) named ∨
        PassesOn library setting n handler expressions e failure) ∧
    ∀ handler : SolveHandler, library.FailsOnly Error.IsNoCircle →
      (∀ name, setting.sheet.FailsOnly Error.IsNoCircle name) → handler.MakesNoCircle →
      ((∃ failure e', (solve library setting n handler expressions).run e = (.error failure, e') ∧
        failure.error.kind = .circular) ↔ HasCircle setting (e.calculator n) named) := by
  have hnodup := (namesOf_namedExpressions hnamed).1
  rcases Calculator.orderOf_eq hacyclic hnodup htrees hunbound with
    ⟨hcircle, listed, horder, -, hlisted⟩ | ⟨hnone, order, horder⟩
  · obtain ⟨e', hlearnt, hfails⟩ := exists_run_solve_of_orderOf hnamed library horder
    refine ⟨fun _ => ⟨listed, e', hfails, hlisted, hlearnt, hlearnt.calculator.memory⟩,
      fun _ _ _ _ _ => .inl hcircle, fun handler _ _ _ => ⟨fun _ => hcircle, fun _ => ?_⟩⟩
    exact ⟨_, e', (hfails handler).1, rfl⟩
  · have hpasses : ∀ {handler failure e'},
        (solve library setting n handler expressions).run e = (.error failure, e') →
        PassesOn library setting n handler expressions e failure :=
      fun h => passesOn_of_run_solve hnamed horder h
    refine ⟨fun h => absurd h hnone, fun _ _ _ h _ => .inr (hpasses h),
      fun handler hlibrary hsheet hhandler => ⟨?_, fun h => absurd h hnone⟩⟩
    rintro ⟨failure, e', h, hkind⟩
    exact absurd hkind ((hpasses h).isNoCircle hlibrary hsheet hhandler)

/-- A routine that fails with a circle of its own. -/
def circling : Routine := ⟨0, some 0, fun _ => .done (throw (.circular []))⟩

/-- An ensemble of one calculator with a function of its own and with a number in its cache for the
text of a name. -/
def knowingA : Ensemble := Ensemble.empty.put 0
  { Calculator.usual .empty [] with
    registry := [("F", ⟨"F", .any, .routine "f" none, 0, some 0⟩)]
    cache := .ofSeed [("a", .node (.literal (.int 5)))] }

/-- Without any circle a solve fails with one that its handler or a function makes; and where a
cache was seeded, an expression whose text mentions its own name may be solved. -/
theorem solve_circular_of_made :
    (¬ HasCircle (.initial .empty) (knowingA.calculator 0) [⟨"a", .text "a", .text "x"⟩] ∧
      ((solve (fun _ => none) (.initial .empty) 0 (fun _ => throw ⟨.circular [], none⟩)
        (.map [(.text "a", .text "x")])).run knowingA).1 = .error ⟨.circular [], none⟩) ∧
    (¬ HasCircle (.initial .empty) (knowingA.calculator 0) [⟨"a", .text "a", .text "F()"⟩] ∧
      ((solve (fun _ => some circling) (.initial .empty) 0 .lenient
        (.map [(.text "a", .text "F()")])).run knowingA).1 = .error ⟨.circular [], none⟩) ∧
    ((knowingA.calculator 0).parse (.initial .empty) "a" = .ok (.identifier "a") ∧
      ((solve (fun _ => none) (.initial .empty) 0 .strict
        (.map [(.text "a", .text "a")])).run knowingA).1 = .ok (.map [(.text "a", .int 5)])) := by
  have hx : (knowingA.calculator 0).treeOf (.initial .empty) (.text "x") =
      .ok (.identifier "x") := by
    rw [knowingA, Calculator.usual_eq, Setting.initial_eq]
    cbv
  have hF : (knowingA.calculator 0).treeOf (.initial .empty) (.text "F()") =
      .ok (.call ⟨"F", .any, .routine "f" none, 0, some 0⟩ []) := by
    rw [knowingA, Calculator.usual_eq, Setting.initial_eq]
    cbv
  refine ⟨⟨Calculator.not_hasCircle_single rfl hx ?_, ?_⟩,
    ⟨Calculator.not_hasCircle_single rfl hF ?_, ?_⟩, ?_, ?_⟩
  · simp [Memory.Mentions, Expr.identifiers, Expr.needs]
  · rw [knowingA, Calculator.usual_eq, Setting.initial_eq]
    cbv
  · simp [Memory.Mentions, Expr.identifiers, Expr.needs, Expr.allIdentifiers, Expr.allNeeds]
  · rw [knowingA, Calculator.usual_eq, Setting.initial_eq]
    cbv
  · rw [knowingA, Calculator.usual_eq, Setting.initial_eq]
    cbv
  · rw [knowingA, Calculator.usual_eq, Setting.initial_eq]
    cbv

/-- An ensemble of one calculator, in which `f` stands for a sum with `a`. -/
def bindingF : Ensemble :=
  Ensemble.empty.put 0 (.usual .empty
    [("f", .node (.binary .add (.identifier "a") (.literal (.int 1))))])

/-- Two expressions, of which the first reads `f` where it need not, and the second the first. -/
def tangled : List Named :=
  [⟨"a", .text "a", .text "IF(TRUE,1,f)"⟩, ⟨"c", .text "c", .text "a*2"⟩]

/-- The first of them leads back to itself through the formula, so neither is evaluated. -/
theorem run_solve_tangled :
    (∃ listed e', (∀ handler, (solve (fun _ => none) (.initial .empty) 0 handler
        (.map (tangled.map fun x => (x.key, x.expression)))).run bindingF =
          (.error ⟨.circular listed, none⟩, e')) ∧ "a" ∈ listed ∧ "c" ∈ listed) ∧
    ∀ handler, handler = .lenient ∨ handler = .strict →
      ((∃ failure e', (solve (fun _ => none) (.initial .empty) 0 handler
        (.map (tangled.map fun x => (x.key, x.expression)))).run bindingF =
          (.error failure, e') ∧ failure.error.kind = .circular) ↔
        HasCircle (.initial .empty) (bindingF.calculator 0) tangled) := by
  have hnamed : namedExpressions (bindingF.calculator 0).bindings
      (.map (tangled.map fun x => (x.key, x.expression))) = .ok (tangled, none) := by
    rw [bindingF, Calculator.usual_eq]
    cbv
  have ha : (bindingF.calculator 0).treeOf (.initial .empty) (.text "IF(TRUE,1,f)") =
      .ok (.choice (.literal (.bool true)) (.literal (.int 1)) (.identifier "f")) := by
    rw [bindingF, Calculator.usual_eq, Setting.initial_eq]
    cbv
  have hc : (bindingF.calculator 0).treeOf (.initial .empty) (.text "a*2") =
      .ok (.binary .mul (.identifier "a") (.literal (.int 2))) := by
    rw [bindingF, Calculator.usual_eq, Setting.initial_eq]
    cbv
  have htrees : ∀ x ∈ tangled, ∃ tree,
      (bindingF.calculator 0).treeOf (.initial .empty) x.expression = .ok tree := by
    simp [tangled, ha, hc]
  have hunbound : ∀ name ∈ namesOf tangled,
      Table.get? (bindingF.calculator 0).memory name = none := by
    intro name hname
    rcases List.mem_pair.mp hname with rfl | rfl
    · rfl
    · rfl
  have hacyclic : (bindingF.calculator 0).memory.IsAcyclic :=
    Memory.isAcyclic_of_forall_mem (fun name => if name = "f" then 1 else 0)
      (by simp [bindingF, Calculator.memory, Calculator.usual, Value.expr?, Expr.identifiers])
  -- from the first expression to the formula, and back
  have hfirst : LeadsTo (.initial .empty) (bindingF.calculator 0) tangled "a" "f" :=
    .expression List.mem_cons_self ha (.inl (by simp [Expr.identifiers]))
  have hback : LeadsTo (.initial .empty) (bindingF.calculator 0) tangled "f" "a" :=
    .formula ⟨_, _, rfl, rfl, .inl (by simp [Expr.identifiers])⟩
  have hsecond : LeadsTo (.initial .empty) (bindingF.calculator 0) tangled "c" "a" :=
    .expression (List.mem_cons_of_mem _ List.mem_cons_self) hc (.inl (by simp [Expr.identifiers]))
  have hcircle := TransGen.head hfirst (.single hback)
  have hlibrary : Library.FailsOnly Error.IsNoCircle fun _ => none := by
    rintro key routine ⟨⟩
  have hsheet (name : String) :
      (Setting.initial .empty).sheet.FailsOnly Error.IsNoCircle name := by
    rintro answer ⟨⟩
  obtain ⟨hcircular, -, hiff⟩ := run_solve_circular hacyclic hnamed htrees hunbound
  constructor
  · obtain ⟨listed, e', hfails, hlisted, -⟩ := hcircular ⟨"a", by simp [tangled], hcircle⟩
    refine ⟨listed, e', fun handler => (hfails handler).1, (hlisted "a").mpr ?_,
      (hlisted "c").mpr ?_⟩
    · exact ⟨by simp [tangled], "a", by simp [tangled], .refl, hcircle⟩
    · exact ⟨by simp [tangled], "a", by simp [tangled], .single hsecond, hcircle⟩
  · rintro handler (rfl | rfl)
    · exact hiff _ hlibrary hsheet SolveHandler.makesNoCircle_lenient
    · exact hiff _ hlibrary hsheet SolveHandler.makesNoCircle_strict

end Ensemble

end Formulary
