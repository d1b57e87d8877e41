import Formulary.Calculator.Solver
import Formulary.Proofs.Calculator.Reading
import Formulary.Proofs.DependencyGraph

/-!
# The order of a bulk solve

The named expressions of a solve have names that are all different. Their order is computed from
what each of them reads (`Calculator.readsOf`), which is a function of the calculator; a solve gets
an order just if every expression can be read and the names can be put in an order in which each
comes after what it reads (`ordersFor_of_run_solveOrder`, `exists_run_solveOrder`).
-/

namespace Formulary

namespace Ensemble

/-! ### Names -/

/-- The names of named expressions. -/
def namesOf (named : List Named) : List String := named.map Named.name

@[simp] theorem namesOf_nil : namesOf [] = [] := rfl

@[simp] theorem namesOf_cons (x : Named) (rest : List Named) :
    namesOf (x :: rest) = x.name :: namesOf rest := rfl

@[simp] theorem namesOf_append (front back : List Named) :
    namesOf (front ++ back) = namesOf front ++ namesOf back := List.map_append

/-- Whether named expressions stand under the names that their keys stand for. -/
def AreNamedBy (b : Bindings) (named : List Named) : Prop := ∀ x ∈ named, x.name = b.normalize x.key

/-- The named expression of an entry of a flat mapping. -/
def namedOf (b : Bindings) (entry : Value × Value) : Named :=
  ⟨b.normalize entry.1, entry.1, entry.2⟩

/-- Naming succeeds just if no two keys have one name, and names the entries in their order. -/
theorem nameAfter_eq_ok_iff {b : Bindings} {flat : Mapping} {before named : List Named}
    (hbefore : (namesOf before).Nodup) :
    nameAfter b before flat = .ok named ↔
      named = before ++ flat.map (namedOf b) ∧ (namesOf named).Nodup := by
  fun_induction nameAfter b before flat with
  | case1 before =>
    constructor
    · intro h
      obtain rfl := Except.ok.inj h
      exact ⟨by simp, hbefore⟩
    · rintro ⟨rfl, -⟩
      simp [pure, Except.pure]
  | case2 before key expression rest name other hother =>
    constructor
    · intro h
      cases h
    · rintro ⟨rfl, hnodup⟩
      -- the name of the key is the one that it collides with
      have hname : name ∈ namesOf before := by
        have hfound := List.find?_some hother
        exact eq_of_beq hfound ▸ List.mem_map_of_mem (List.mem_of_find?_eq_some hother)
      rw [namesOf_append, List.nodup_append] at hnodup
      exact absurd rfl (hnodup.2.2 name hname name List.mem_cons_self)
  | case3 before key expression rest name hnone ih =>
    have hnew : name ∉ namesOf before := by
      intro hm
      obtain ⟨x, hx, hxname⟩ := List.mem_map.mp hm
      have := List.find?_eq_none.mp hnone x hx
      exact this (by simpa using hxname)
    have hnext : (namesOf (before ++ [⟨name, key, expression⟩])).Nodup := by
      rw [namesOf_append, List.nodup_append]
      exact ⟨hbefore, by simp, by grind [namesOf]⟩
    rw [ih hnext, List.append_assoc]
    rfl

theorem namedExpressions_eq_ok_iff {b : Bindings} {expressions : Value} {named : List Named}
    {fault : Option Error} :
    namedExpressions b expressions = .ok (named, fault) ↔
      ∃ flat, flatExpressions b expressions = .ok (flat, fault) ∧ named = flat.map (namedOf b) ∧
        (namesOf named).Nodup := by
  rw [namedExpressions]
  rcases hflat : flatExpressions b expressions with e | ⟨flat, fault'⟩
  · constructor
    · intro h
      cases h
    · rintro ⟨flat, h, -⟩
      cases h
  · have hname : nameAfter b [] flat = .ok named ↔ _ :=
      nameAfter_eq_ok_iff (List.nodup_nil : (namesOf []).Nodup)
    rw [List.nil_append] at hname
    change (nameAfter b [] flat >>= fun named => pure (named, fault')) = _ ↔ _
    constructor
    · intro h
      obtain ⟨named', hnames, hpair⟩ := Except.bind_eq_ok_iff.mp h
      obtain ⟨rfl, rfl⟩ := Prod.ext_iff.mp (Except.ok.inj hpair)
      exact ⟨flat, rfl, hname.mp hnames⟩
    · rintro ⟨flat', h, hnamed⟩
      obtain ⟨rfl, rfl⟩ := Prod.ext_iff.mp (Except.ok.inj h)
      rw [hname.mpr hnamed]
      rfl

theorem namesOf_namedExpressions {b : Bindings} {expressions : Value} {named : List Named}
    {fault : Option Error} (h : namedExpressions b expressions = .ok (named, fault)) :
    (namesOf named).Nodup ∧ AreNamedBy b named := by
  obtain ⟨flat, -, rfl, hnodup⟩ := namedExpressions_eq_ok_iff.mp h
  refine ⟨hnodup, fun x hx => ?_⟩
  obtain ⟨entry, -, rfl⟩ := List.mem_map.mp hx
  rfl

/-- Naming does not depend on what is bound. -/
theorem namedExpressions_congr {b b' : Bindings} (hcase : b'.caseSensitive = b.caseSensitive)
    (hflat : b'.ignoreNested = b.ignoreNested) : namedExpressions b' = namedExpressions b := by
  have hnormalize : b'.normalize = b.normalize := by
    funext key
    rw [Bindings.normalize, Bindings.normalize, hcase]
  have hname : nameAfter b' = nameAfter b := by
    funext before flat
    fun_induction nameAfter b before flat with
    | case1 => rfl
    | case2 before key expression rest name other hother =>
      rw [nameAfter, hnormalize, hother]
    | case3 before key expression rest name hnone ih =>
      rw [nameAfter, hnormalize, hnone]
      exact ih
  funext expressions
  rw [namedExpressions, namedExpressions, flatExpressions, flatExpressions, hflat, hname]

theorem find?_of_mem {named : List Named} (h : (namesOf named).Nodup) {x : Named}
    (hx : x ∈ named) : named.find? (·.name == x.name) = some x := by
  induction named with
  | nil => cases hx
  | cons first rest ih =>
    rw [namesOf_cons, List.nodup_cons] at h
    rcases List.mem_cons.mp hx with rfl | hx
    · simp
    · have hne : (first.name == x.name) = false := by
        rw [beq_eq_false_iff_ne]
        intro heq
        exact h.1 (heq ▸ List.mem_map_of_mem hx)
      rw [List.find?_cons_of_neg (by simpa using hne)]
      exact ih h.2 hx

end Ensemble

namespace Calculator

open Ensemble

/-! ### What an expression reads -/

/-- The names among the given ones that an expression reads on a calculator. -/
def readsOf (setting : Setting) (names : List String) (c : Calculator) (expression : Value) :
    Except Error (List String) :=
  if readsNames expression then
    (do return (← (← c.treeOf setting expression).freeNamesIn c.memory).filter (· ∈ names))
  else .ok []

/-- What each of several expressions reads, under its name. -/
def nodesOf (setting : Setting) (names : List String) (c : Calculator) :
    List Named → Except Error (List (String × List String))
  | [] => .ok []
  | x :: rest => do
    let reads ← c.readsOf setting names x.expression
    return (x.name, reads) :: (← nodesOf setting names c rest)

variable {setting : Setting} {names : List String}

theorem Learnt.readsOf {c c' : Calculator} (h : Learnt setting c c') :
    c'.readsOf setting names = c.readsOf setting names := by
  funext expression
  rw [Calculator.readsOf, Calculator.readsOf, h.tree, h.memory]

theorem Learnt.nodesOf {c c' : Calculator} (h : Learnt setting c c') :
    c'.nodesOf setting names = c.nodesOf setting names := by
  funext named
  induction named with
  | nil => rfl
  | cons x rest ih => rw [Calculator.nodesOf, Calculator.nodesOf, h.readsOf, ih]

theorem dependencies_of_readsNames {expression : Value} (h : readsNames expression = true) :
    dependencies setting .none expression = dependenciesOfOne setting expression .none := by
  cases expression with
  | list items => simp [readsNames, Value.text?, Value.expr?] at h
  | tuple items => simp [readsNames, Value.text?, Value.expr?] at h
  | _ => simp [dependencies]

/-- What an expression reads is found by a function of the calculator, which only learns from it. -/
theorem run_readsAmong (setting : Setting) (names : List String) (expression : Value)
    (c : Calculator) :
    ∃ c', (readsAmong setting names expression).run c =
      (c.readsOf setting names expression, c') ∧ Learnt setting c c' := by
  rcases h : readsNames expression with - | -
  · exact ⟨c, by simp [readsAmong, readsOf, h], .refl c⟩
  · obtain ⟨c', hrun, hlearnt⟩ := run_dependenciesOfOne setting expression c
    refine ⟨c', ?_, hlearnt⟩
    rw [readsAmong, if_pos h, readsOf, if_pos h, Stateful.run_bind, dependencies_of_readsNames h,
      hrun]
    rcases c.treeOf setting expression with fault | e
    · rfl
    · simp only [Except.bind, bind]
      rcases e.freeNamesIn c.memory with fault | found
      · rfl
      · rfl

theorem run_graphAfter (setting : Setting) (names : List String) (g : DependencyGraph)
    (named : List Named) (c : Calculator) :
    ∃ c', (graphAfter setting names g named).run c =
      ((c.nodesOf setting names named).map fun nodes =>
        nodes.foldl (fun g node => g.addNode node.1 node.2) g, c') ∧ Learnt setting c c' := by
  induction named generalizing g c with
  | nil => exact ⟨c, rfl, .refl c⟩
  | cons x rest ih =>
    obtain ⟨c', hrun, hlearnt⟩ := run_readsAmong setting names x.expression c
    rw [graphAfter, Stateful.run_bind, hrun, nodesOf]
    rcases c.readsOf setting names x.expression with fault | reads
    · exact ⟨c', rfl, hlearnt⟩
    · obtain ⟨c'', hrun', hlearnt'⟩ := ih (g.addNode x.name reads) c'
      refine ⟨c'', ?_, hlearnt.trans hlearnt'⟩
      rw [hlearnt.nodesOf] at hrun'
      simp only [hrun']
      rcases c.nodesOf setting names rest with fault | nodes
      · rfl
      · rfl

theorem nodesOf_eq_ok {c : Calculator} {named : List Named} {nodes : List (String × List String)}
    (h : c.nodesOf setting names named = .ok nodes) :
    nodes.map Prod.fst = namesOf named ∧
      ∀ x ∈ named, ∃ reads, c.readsOf setting names x.expression = .ok reads ∧
        (x.name, reads) ∈ nodes := by
  induction named generalizing nodes with
  | nil =>
    obtain rfl := Except.ok.inj h
    exact ⟨rfl, by simp⟩
  | cons x rest ih =>
    rw [nodesOf] at h
    obtain ⟨reads, hreads, hrest⟩ := Except.bind_eq_ok_iff.mp h
    obtain ⟨others, hnodes, hpair⟩ := Except.bind_eq_ok_iff.mp hrest
    obtain rfl : (x.name, reads) :: others = nodes := Except.ok.inj hpair
    obtain ⟨hfst, hall⟩ := ih hnodes
    refine ⟨by simp [namesOf, hfst], ?_⟩
    intro y hy
    rcases List.mem_cons.mp hy with rfl | hy
    · exact ⟨reads, hreads, List.mem_cons_self⟩
    · obtain ⟨reads', hreads', hmem⟩ := hall y hy
      exact ⟨reads', hreads', List.mem_cons_of_mem _ hmem⟩

theorem exists_nodesOf {c : Calculator} {named : List Named}
    (h : ∀ x ∈ named, ∃ reads, c.readsOf setting names x.expression = .ok reads) :
    ∃ nodes, c.nodesOf setting names named = .ok nodes := by
  induction named with
  | nil => exact ⟨[], rfl⟩
  | cons x rest ih =>
    obtain ⟨reads, hreads⟩ := h x List.mem_cons_self
    obtain ⟨nodes, hnodes⟩ := ih fun y hy => h y (List.mem_cons_of_mem _ hy)
    refine ⟨(x.name, reads) :: nodes, ?_⟩
    rw [nodesOf, hreads, hnodes]
    rfl

/-! ### Orders -/

/-- Whether an order of named expressions puts each after the names it reads, and all of them can be
read. -/
structure OrdersFor (setting : Setting) (c : Calculator) (named : List Named)
    (order : List String) : Prop where
  perm : order.Perm (namesOf named)
  reads : ∀ x ∈ named, ∃ reads, c.readsOf setting (namesOf named) x.expression = .ok reads
  before : ∀ {front x back reads}, x ∈ named → order = front ++ x.name :: back →
    c.readsOf setting (namesOf named) x.expression = .ok reads → ∀ d ∈ reads, d ∈ front

/-- In an order of different names, those before a name are the ones with smaller places. -/
theorem mem_front_iff {front back : List String} {x : String} (h : (front ++ x :: back).Nodup)
    (y : String) :
    y ∈ front ↔ (front ++ x :: back).idxOf y < (front ++ x :: back).idxOf x := by
  have hx : x ∉ front := fun hx => (List.nodup_append.mp h).2.2 x hx x List.mem_cons_self rfl
  rw [List.idxOf_append_of_notMem hx, List.idxOf_cons_self, Nat.add_zero]
  by_cases hy : y ∈ front
  · rw [List.idxOf_append_of_mem hy]
    exact iff_of_true hy (List.idxOf_lt_length_iff.mpr hy)
  · rw [List.idxOf_append_of_notMem hy]
    exact iff_of_false hy (by omega)

variable {c : Calculator} {named : List Named}

theorem readsOf_perm {other : List String} (h : names.Perm other) :
    c.readsOf setting names = c.readsOf setting other := by
  funext expression
  simp only [readsOf, h.mem_iff]

/-- An order does not depend on how the expressions are listed. -/
theorem OrdersFor.of_perm {order : List String} (h : OrdersFor setting c named order)
    {other : List Named} (hperm : other.Perm named) : OrdersFor setting c other order := by
  have hnames : (namesOf other).Perm (namesOf named) := hperm.map _
  refine ⟨h.perm.trans hnames.symm, fun x hx => ?_, fun hx horder hr => ?_⟩
  · rw [readsOf_perm hnames]
    exact h.reads x (hperm.mem_iff.mp hx)
  · rw [readsOf_perm hnames] at hr
    exact h.before (hperm.mem_iff.mp hx) horder hr

theorem mem_of_readsOf {expression : Value} {reads : List String}
    (h : c.readsOf setting names expression = .ok reads) {d : String} (hd : d ∈ reads) :
    d ∈ names := by
  rw [readsOf] at h
  split at h
  · obtain ⟨e, -, h⟩ := Except.bind_eq_ok_iff.mp h
    obtain ⟨found, -, h⟩ := Except.bind_eq_ok_iff.mp h
    obtain rfl := Except.ok.inj h
    exact of_decide_eq_true (List.mem_filter.mp hd).2
  · obtain rfl := Except.ok.inj h
    cases hd

/-- The graph of named expressions: its topological orders are the orders of a solve. -/
theorem isTopological_iff (hnodup : (namesOf named).Nodup)
    {nodes : List (String × List String)}
    (hnodes : c.nodesOf setting (namesOf named) named = .ok nodes) (order : List String) :
    (DependencyGraph.ofNodes nodes).IsConsistent ∧
      ((DependencyGraph.ofNodes nodes).IsTopological order ↔ OrdersFor setting c named order) := by
  obtain ⟨hfst, hreads⟩ := nodesOf_eq_ok hnodes
  obtain ⟨hcons, hnames, hdeps, -⟩ := DependencyGraph.addNodes_spec nodes
    DependencyGraph.isConsistent_empty (by
      rw [hfst]
      exact hnodup)
  have hnames' : (DependencyGraph.ofNodes nodes).names = namesOf named := by
    rw [← hfst]
    exact hnames
  -- inside of the graph, a name depends on the names that its expression reads
  have hinner : ∀ x ∈ named, ∀ reads,
      c.readsOf setting (namesOf named) x.expression = .ok reads →
      ∀ d, d ∈ (DependencyGraph.ofNodes nodes).inner x.name ↔ d ∈ reads := by
    intro x hx reads hr d
    obtain ⟨reads', hr', hmem⟩ := hreads x hx
    obtain rfl : reads' = reads := Except.ok.inj (hr'.symm.trans hr)
    have hdep : (DependencyGraph.ofNodes nodes).dependenciesOf x.name = reads'.eraseDups :=
      hdeps x.name reads' hmem
    rw [DependencyGraph.inner, List.mem_filter, hdep, List.mem_eraseDups, hnames']
    simp only [decide_eq_true_eq, and_iff_left_iff_imp]
    exact fun hd => mem_of_readsOf hr hd
  refine ⟨hcons, ?_⟩
  constructor
  · intro ht
    refine ⟨hnames' ▸ ht.perm, fun x hx => ?_, ?_⟩
    · obtain ⟨reads, hr, -⟩ := hreads x hx
      exact ⟨reads, hr⟩
    · intro front x back reads hx horder hr d hd
      exact ht.before horder d ((hinner x hx reads hr d).mpr hd)
  · intro ho
    refine ⟨hnames'.symm ▸ ho.perm, ?_⟩
    intro front name back horder d hd
    have hname : name ∈ namesOf named := ho.perm.mem_iff.mp (by simp [horder])
    obtain ⟨x, hx, rfl⟩ := List.mem_map.mp hname
    obtain ⟨reads, hr⟩ := ho.reads x hx
    exact ho.before hx horder hr d ((hinner x hx reads hr d).mp hd)

/-- The order of a solve is a function of the calculator: it is the order of the graph of what the
expressions read. -/
def orderOf (setting : Setting) (c : Calculator) (named : List Named) (fault : Option Error) :
    Except Error (List String) := do
  let nodes ← c.nodesOf setting (namesOf named) named
  match fault with
  | some e => throw e
  | none => (DependencyGraph.ofNodes nodes).order

theorem run_solveOrder (setting : Setting) (named : List Named) (fault : Option Error)
    (c : Calculator) :
    ∃ c', (solveOrder setting named fault).run c = (c.orderOf setting named fault, c') ∧
      Learnt setting c c' := by
  obtain ⟨c', hrun, hlearnt⟩ := run_graphAfter setting (namesOf named) .empty named c
  refine ⟨c', ?_, hlearnt⟩
  rw [solveOrder, Stateful.run_bind, show named.map Named.name = namesOf named from rfl, hrun,
    orderOf]
  rcases c.nodesOf setting (namesOf named) named with e | nodes
  · rfl
  · cases fault with
    | some e => rfl
    | none => exact Stateful.run_ofExcept _ _

/-- **Sound**: the order of a solve puts each name after those it reads. -/
theorem ordersFor_of_run_solveOrder (hnodup : (namesOf named).Nodup) {fault : Option Error}
    {order : List String} {c' : Calculator}
    (h : (solveOrder setting named fault).run c = (.ok order, c')) :
    OrdersFor setting c named order ∧ Learnt setting c c' ∧ fault = none := by
  obtain ⟨c'', hrun, hlearnt⟩ := run_solveOrder setting named fault c
  obtain ⟨horder, rfl⟩ := Prod.ext_iff.mp (hrun.symm.trans h)
  obtain ⟨nodes, hnodes, hfound⟩ := Except.bind_eq_ok_iff.mp horder
  cases fault with
  | some e => cases hfound
  | none =>
    obtain ⟨hcons, hiff⟩ := isTopological_iff hnodup hnodes order
    exact ⟨hiff.mp (DependencyGraph.isTopological_of_order hcons hfound), hlearnt, rfl⟩

/-- **Complete**: a solve gets an order if there is one. -/
theorem exists_run_solveOrder (hnodup : (namesOf named).Nodup) {order : List String}
    (h : OrdersFor setting c named order) :
    ∃ order' c', (solveOrder setting named none).run c = (.ok order', c') := by
  obtain ⟨nodes, hnodes⟩ := exists_nodesOf h.reads
  obtain ⟨hcons, hiff⟩ := isTopological_iff hnodup hnodes order
  obtain ⟨order', horder⟩ := DependencyGraph.exists_order_of_isTopological hcons (hiff.mpr h)
  obtain ⟨c', hrun, -⟩ := run_solveOrder setting named none c
  have hfound : c.orderOf setting named none = .ok order' := by
    rw [orderOf, hnodes]
    exact horder
  exact ⟨order', c', by rw [hrun, hfound]⟩

end Calculator

end Formulary
