import Formulary.Proofs.Calculator.Progress

/-!
# Runs of the solver

A bulk solve names its expressions, orders the names and solves them one by one. If its functions
are passive, the last part is a run of the calculator's equations, so a solve that returns has
solved them in an order in which each name comes after those it reads (`solveBy_of_run_solveFlat`),
and a solve whose equations can be solved in every such order returns (`exists_run_solveFlat`).
-/

namespace Formulary

namespace Ensemble

variable {library : Library} {setting : Setting} {n : Nat} {c : Calculator} {handler : SolveHandler}
  {answers : Answers}

/-- An order of the names puts the expressions themselves in an order. -/
theorem exists_perm_of_namesOf {named : List Named} (h : (namesOf named).Nodup)
    {order : List String} (ho : order.Perm (namesOf named)) :
    ∃ xs : List Named, xs.Perm named ∧ order = namesOf xs := by
  refine ⟨order.filterMap fun name => named.find? (·.name == name), ?_, ?_⟩
  · have hself : (namesOf named).filterMap (fun name => named.find? (·.name == name)) = named := by
      rw [namesOf, List.filterMap_map]
      calc named.filterMap _ = named.filterMap some :=
            List.filterMap_congr fun x hx => find?_of_mem h hx
        _ = named := List.filterMap_some
    have := ho.filterMap fun name => named.find? (·.name == name)
    rwa [hself] at this
  · have hfound : ∀ name ∈ order, ∃ x, named.find? (·.name == name) = some x ∧ x.name = name := by
      intro name hname
      obtain ⟨x, hx, rfl⟩ := List.mem_map.mp (ho.mem_iff.mp hname)
      exact ⟨x, find?_of_mem h hx, rfl⟩
    clear ho
    induction order with
    | nil => rfl
    | cons name rest ih =>
      obtain ⟨x, hx, hxname⟩ := hfound name List.mem_cons_self
      rw [List.filterMap_cons, hx, namesOf_cons, hxname,
        ← ih fun other hother => hfound other (List.mem_cons_of_mem _ hother)]

/-! ### Solving the names -/

/-- What a solve does is told by the equations of its calculator, if the evaluations that it comes
to act on no calculator. Either they call no routine at all, or the calls can be freed. -/
structure IsPassiveRun (library : Library) (setting : Setting) (n : Nat) (answers : Answers)
    (c : Calculator) (step calls : Nat) (xs : List Named) (Good : Progress → Prop) : Prop where
  start : Good .none
  follows : ∀ p x, Good p → x ∈ xs → Follows setting n c step
    (evaluateEach library setting n x.expression (.map (Mapping.ofNames p.solved)))
    (forEach (c.valueOf library setting step (Mapping.ofNames p.solved)) x.expression)
  next : ∀ p x o, Good p → x ∈ xs →
    c.equations library setting step calls answers x p.solved = .ok o → Good (p.record x o)

/-- Whether the evaluations of a run call no routine. -/
def IsQuietRun (library : Library) (setting : Setting) (c : Calculator) (step calls : Nat)
    (xs : List Named) (Good : Progress → Prop) : Prop :=
  ∀ p x, Good p → x ∈ xs →
    ((forEach (c.valueOf library setting step (Mapping.ofNames p.solved)) x.expression).run
      calls).2 = calls

variable {step calls : Nat}

/-- If no routine of the library acts on a calculator, no evaluation does. -/
theorem isPassiveRun_of_isPassive (h : ∀ key r, library key = some r → r.IsPassive)
    (xs : List Named) :
    IsPassiveRun library setting n answers c step calls xs (fun _ => True) where
  start := trivial
  follows _ _ _ _ := follows_evaluateEach (fun _ _ _ _ _ _ _ _ r _ => h _ r)
    (fun _ _ _ _ _ _ _ r _ => h _ r)
  next _ _ _ _ _ _ := trivial

theorem run_solveNames {named xs : List Named} (hnodup : (namesOf named).Nodup)
    (hsub : ∀ x ∈ xs, x ∈ named) (hview : c.view = c.memory) {Good : Progress → Prop}
    (hpassive : IsPassiveRun library setting n answers c step calls xs Good) {p : Progress}
    (hp : Good p) {e : Ensemble} (hc : c.Learnt setting (e.calculator n)) (hstep : e.step = step)
    (hcalls : e.calls = calls)
    (hfree : IsQuietRun library setting c step calls xs Good ∨ e.holdsCallFrom calls = false) :
    ∃ e', (solveNames (evaluateEach library setting n) (.quiet answers) n named p
        (namesOf xs)).run e = (solveBy (c.equations library setting step calls answers) p xs, e') ∧
      e'.calls = calls ∧ Learnt setting n e e' := by
  induction xs generalizing p e with
  | nil => exact ⟨e, rfl, hcalls, .refl e⟩
  | cons x rest ih =>
    have hx : x ∈ x :: rest := List.mem_cons_self
    subst hstep hcalls
    -- one step comes out as its equation says, and the calculator has only learnt from it
    obtain ⟨e', hrun, hcalls', hlearnt⟩ := run_solveOne (hpassive.follows p x hp hx) hc
      (hfree.imp_left fun hquiet => hquiet p x hp hx) hview answers
    rw [namesOf_cons, solveNames, find?_of_mem hnodup (hsub x hx), Stateful.run_bind, hrun,
      solveBy]
    rcases ho : c.equations library setting e.step e.calls answers x p.solved with failure | o
    · exact ⟨e', rfl, hcalls', hlearnt⟩
    · obtain ⟨e'', hrun', hcalls'', hlearnt'⟩ :=
        ih (fun y hy => hsub y (List.mem_cons_of_mem _ hy))
          ⟨hpassive.start, fun p y hp hy => hpassive.follows p y hp (List.mem_cons_of_mem _ hy),
            fun p y o hp hy => hpassive.next p y o hp (List.mem_cons_of_mem _ hy)⟩
          (hpassive.next p x o hp hx ho) (hc.trans hlearnt.calculator) hlearnt.step hcalls'
          (hfree.imp (fun hquiet p y hp hy => hquiet p y hp (List.mem_cons_of_mem _ hy))
            hlearnt.holdsCallFrom)
      exact ⟨e'', hrun', hcalls'', hlearnt.trans hlearnt'⟩

/-! ### Solving a flat mapping -/

theorem run_toSolve {α : Type} (run : Run α) (e : Ensemble) : run.toSolve.run e =
    ((run.run e).1.mapError fun fault => (⟨fault, none⟩ : Failure), (run.run e).2) := rfl

theorem run_toSolve_onOne {α : Type} (run : Calculator.Run α) (e : Ensemble) :
    ((onOne n run).toSolve).run e =
      ((run.run (e.calculator n)).1.mapError fun fault => (⟨fault, none⟩ : Failure),
        e.put n (run.run (e.calculator n)).2) := rfl

theorem eq_ok_of_mapError {ε ε' α : Type} {f : ε → ε'} {result : Except ε α} {a : α}
    (h : result.mapError f = .ok a) : result = .ok a := by
  cases result with
  | error e => cases h
  | ok b =>
    obtain rfl := Except.ok.inj h
    rfl

/-- The ensemble after a computation that held the bindings of a calculator. -/
def released (e after : Ensemble) (n : Nat) : Ensemble :=
  after.put n { after.calculator n with detached := (e.calculator n).detached }

theorem run_holding {α : Type} (body : Solve α) (e : Ensemble) : (holding n body).run e =
    ((body.run (e.put n (e.calculator n).attached)).1,
      e.released (body.run (e.put n (e.calculator n).attached)).2 n) := rfl

/-- What is learnt while the bindings are held is learnt. -/
theorem learnt_released {e after : Ensemble}
    (h : Learnt setting n (e.put n (e.calculator n).attached) after) :
    Learnt setting n e (e.released after n) where
  calculator := by
    have hself := h.calculator
    rw [calculator_put_self] at hself
    rw [released, calculator_put_self]
    exact ⟨hself.bindings, hself.aliases, hself.registry, hself.usesDefaults, rfl, hself.tree⟩
  others c := by
    calc Table.insert (e.released after n).calculators n c
        = Table.insert after.calculators n c := Table.insert_insert _ _ _ _
      _ = Table.insert (e.put n (e.calculator n).attached).calculators n c := h.others c
      _ = Table.insert e.calculators n c := Table.insert_insert _ _ _ _
  step := h.step
  notes := h.notes

/-- The parts of a solve that returns: names, an order, and the expressions in this order. -/
theorem run_solveFlat_eq_ok_iff {expressions : Value} {e e' : Ensemble} {named : List Named}
    {p : Progress} :
    (solveFlat library setting n handler expressions).run e = (.ok (named, p), e') ↔
      ∃ fault order c' after,
        namedExpressions (e.calculator n).bindings expressions = .ok (named, fault) ∧
        (solveOrder setting named fault).run (e.calculator n) = (.ok order, c') ∧
        (solveNames (evaluateEach library setting n) handler n named .none order).run
          (e.put n c'.attached) = (.ok p, after) ∧ e' = (e.put n c').released after n := by
  rw [solveFlat, Stateful.run_bind, Stateful.run_get]
  constructor
  · intro h
    obtain ⟨⟨named', fault⟩, e₁, hnamed, hrest⟩ := Stateful.run_bind_eq_ok_iff.mp h
    obtain ⟨order, e₂, horder, hrest'⟩ := Stateful.run_bind_eq_ok_iff.mp hrest
    obtain ⟨p', e₃, hsolve, hpure⟩ := Stateful.run_bind_eq_ok_iff.mp hrest'
    rw [Stateful.run_ofExcept] at hnamed
    obtain ⟨hpairs, rfl⟩ := Prod.mk.inj hnamed
    rw [run_toSolve_onOne] at horder
    obtain ⟨hnames, rfl⟩ := Prod.mk.inj horder
    obtain ⟨hpair, rfl⟩ := Prod.mk.inj hpure
    obtain ⟨rfl, rfl⟩ := Prod.mk.inj (Except.ok.inj hpair)
    rw [run_holding, calculator_put_self, put_put] at hsolve
    obtain ⟨hp, rfl⟩ := Prod.mk.inj hsolve
    exact ⟨fault, order, _, _, eq_ok_of_mapError hpairs, Prod.ext (eq_ok_of_mapError hnames) rfl,
      Prod.ext hp rfl, rfl⟩
  · rintro ⟨fault, order, c', after, hnamed, horder, hsolve, rfl⟩
    simp only [hnamed, Except.mapError, Stateful.run_bind, Stateful.run_ofExcept, run_toSolve_onOne,
      horder, run_holding, calculator_put_self, put_put, hsolve]
    rfl

/-- After ordering, the names are solved on what the calculator binds. -/
theorem run_solveNames_attached {named xs : List Named} (hnodup : (namesOf named).Nodup)
    (hsub : ∀ x ∈ xs, x ∈ named) {e : Ensemble} {c' : Calculator}
    (hlearnt : (e.calculator n).Learnt setting c') {Good : Progress → Prop}
    (hpassive : IsPassiveRun library setting n answers (e.calculator n).attached e.step e.calls xs
      Good)
    (hfree : IsQuietRun library setting (e.calculator n) e.step e.calls xs Good ∨
      e.holdsCallFrom e.calls = false) :
    ∃ after, (solveNames (evaluateEach library setting n) (.quiet answers) n named .none
        (namesOf xs)).run (e.put n c'.attached) =
          (solveBy ((e.calculator n).equations library setting e.step e.calls answers) .none xs,
            after) ∧
      after.calls = e.calls ∧ Learnt setting n e ((e.put n c').released after n) := by
  have hput : Learnt setting n e (e.put n c') := learnt_put hlearnt
  have hattached : (e.calculator n).attached.Learnt setting
      ((e.put n c'.attached).calculator n) := by
    rw [calculator_put_self]
    exact hlearnt.attached
  -- what is read there is what is bound
  have hheld : e.holdsCallFrom e.calls = false →
      (e.put n c'.attached).holdsCallFrom e.calls = false := by
    intro h
    have hself := holdsCallFrom_calculator h n
    rw [Calculator.holdsCallFrom, List.any_append, Bool.or_eq_false_iff] at hself
    refine holdsCallFrom_put h ?_
    have hmemory : c'.attached.memory = (e.calculator n).memory := hlearnt.memory
    rw [Calculator.holdsCallFrom, List.any_append, hmemory, hself.1, Bool.false_or]
    show List.any c'.attached.memory _ = false
    rw [hmemory, hself.1]
  obtain ⟨after, hrun, hcalls, hafter⟩ := run_solveNames (e := e.put n c'.attached) hnodup hsub rfl
    hpassive hpassive.start hattached rfl rfl (hfree.imp_right hheld)
  refine ⟨after, hrun, hcalls, hput.trans (learnt_released ?_)⟩
  rw [calculator_put_self, put_put]
  exact hafter

section

variable {Good : List Named → Progress → Prop} {expressions : Value} {e : Ensemble}

/-- **A solve that returns has solved its equations**, one after the other in an order in which each
name comes after those it reads. -/
theorem solveBy_of_run_solveFlat {e' : Ensemble} {named : List Named} {p : Progress}
    (h : (solveFlat library setting n (.quiet answers) expressions).run e = (.ok (named, p), e'))
    (hpassive : ∀ xs, xs.Perm named → IsPassiveRun library setting n answers
      (e.calculator n).attached e.step e.calls xs (Good xs))
    (hfree : e.holdsCallFrom e.calls = false ∨ ∀ xs, xs.Perm named →
      IsQuietRun library setting (e.calculator n) e.step e.calls xs (Good xs)) :
    ∃ xs, namedExpressions (e.calculator n).bindings expressions = .ok (named, none) ∧
      xs.Perm named ∧
      ((solveOrder setting named none).run (e.calculator n)).1 = .ok (namesOf xs) ∧
      solveBy ((e.calculator n).equations library setting e.step e.calls answers) .none xs = .ok p ∧
      e'.calls = e.calls ∧ Learnt setting n e e' := by
  obtain ⟨fault, order, c', after, hnamed, horder, hsolve, rfl⟩ := run_solveFlat_eq_ok_iff.mp h
  have hnodup := (namesOf_namedExpressions hnamed).1
  obtain ⟨horders, hlearnt, rfl⟩ := Calculator.ordersFor_of_run_solveOrder hnodup horder
  obtain ⟨xs, hperm, rfl⟩ := exists_perm_of_namesOf hnodup horders.perm
  obtain ⟨after', hrun, hcalls, hafter⟩ := run_solveNames_attached hnodup
    (fun x hx => hperm.mem_iff.mp hx) hlearnt (hpassive xs hperm)
    (hfree.symm.imp_left fun hquiet => hquiet xs hperm)
  rw [hrun] at hsolve
  obtain ⟨hsolve, rfl⟩ := Prod.ext_iff.mp hsolve
  exact ⟨xs, hnamed, hperm, by rw [horder], hsolve, hcalls, hafter⟩

/-- **A solve whose equations can be solved returns**: if there is an order at all in which each
name comes after those it reads, it is enough that they can in the one that is found. -/
theorem exists_run_solveFlat {named : List Named} {P : Progress → Prop}
    (hnamed : namedExpressions (e.calculator n).bindings expressions = .ok (named, none))
    {order : List String}
    (horder : Calculator.OrdersFor setting (e.calculator n) named order)
    (hpassive : ∀ xs, xs.Perm named → IsPassiveRun library setting n answers
      (e.calculator n).attached e.step e.calls xs (Good xs))
    (hfree : e.holdsCallFrom e.calls = false ∨ ∀ xs, xs.Perm named →
      IsQuietRun library setting (e.calculator n) e.step e.calls xs (Good xs))
    (h : ∀ xs, xs.Perm named →
      ((solveOrder setting named none).run (e.calculator n)).1 = .ok (namesOf xs) → ∃ p,
        solveBy ((e.calculator n).equations library setting e.step e.calls answers) .none xs =
          .ok p ∧ P p) :
    ∃ p e', (solveFlat library setting n (.quiet answers) expressions).run e =
        (.ok (named, p), e') ∧ Learnt setting n e e' ∧ P p := by
  have hnodup := (namesOf_namedExpressions hnamed).1
  -- the order that is found need not be the one that is known to exist
  obtain ⟨order', c', hrun⟩ := Calculator.exists_run_solveOrder hnodup horder
  obtain ⟨horders, hlearnt, -⟩ := Calculator.ordersFor_of_run_solveOrder hnodup hrun
  obtain ⟨xs, hperm, rfl⟩ := exists_perm_of_namesOf hnodup horders.perm
  obtain ⟨after, hsolve, -, hafter⟩ := run_solveNames_attached hnodup
    (fun x hx => hperm.mem_iff.mp hx) hlearnt (hpassive xs hperm)
    (hfree.symm.imp_left fun hquiet => hquiet xs hperm)
  obtain ⟨p, hp, hP⟩ := h xs hperm (by rw [hrun])
  rw [hp] at hsolve
  exact ⟨p, _, run_solveFlat_eq_ok_iff.mpr ⟨none, namesOf xs, c', after, hnamed, hrun, hsolve, rfl⟩,
    hafter, hP⟩

end

/-! ### Nesting the results -/

variable {expressions : Value} {e e₁ : Ensemble}

/-- Where the flat mapping is not solved, a solve fails for this. -/
theorem run_solve_of_error {failure : Failure}
    (h : (solveFlat library setting n handler expressions).run e = (.error failure, e₁)) :
    (solve library setting n handler expressions).run e = (.error failure, e₁) := by
  rw [solve, Stateful.run_bind, Stateful.run_get]
  simp only [Stateful.run_bind, h]

/-- A solve that returns has solved the flat mapping. -/
theorem exists_run_solveFlat_of_run_solve {w : Value} {e' : Ensemble}
    (h : (solve library setting n handler expressions).run e = (.ok w, e')) :
    ∃ named p e₁, (solveFlat library setting n handler expressions).run e =
      (.ok (named, p), e₁) := by
  rcases hflat : (solveFlat library setting n handler expressions).run e with
    ⟨failure | ⟨named, p⟩, e₁⟩
  · rw [run_solve_of_error hflat] at h
    cases h
  · exact ⟨named, p, e₁, rfl⟩

theorem run_solve_of_run_solveFlat {named : List Named} {p : Progress}
    (h : (solveFlat library setting n handler expressions).run e = (.ok (named, p), e₁))
    {x : Expansion}
    (hx : Mapping.expandShared (fun key v =>
      v.identified (.result e₁.step ((e.calculator n).bindings.normalize key)))
      (resultsByKey named p) = x) :
    (solve library setting n handler expressions).run e =
      (.ok (.map x.nested), e₁.receiveAll x.writes) := by
  rw [solve, Stateful.run_bind, Stateful.run_get]
  simp only [Stateful.run_bind, h, Stateful.run_get, hx]
  rfl

theorem isMap_of_mem_resultsByKey {named : List Named} {p : Progress}
    (hplain : ∀ x ∈ named, ∀ v, Table.get? p.results x.name = some v → v.isMap = false) :
    ∀ entry ∈ resultsByKey named p, entry.2.isMap = false := by
  intro entry hentry
  obtain ⟨x, hx, hfound⟩ := List.mem_filterMap.mp hentry
  obtain ⟨v, hv, rfl⟩ := Option.map_eq_some_iff.mp hfound
  exact hplain x hx v hv

/-- Unless some result is a mapping, the results are nested without writing into any. -/
theorem run_solve_of_isMap {named : List Named} {p : Progress}
    (h : (solveFlat library setting n handler expressions).run e = (.ok (named, p), e₁))
    (hplain : ∀ x ∈ named, ∀ v, Table.get? p.results x.name = some v → v.isMap = false) :
    (solve library setting n handler expressions).run e =
      (.ok (.map (Mapping.expand (resultsByKey named p))), e₁) := by
  rw [run_solve_of_run_solveFlat h (Mapping.expandShared_eq (isMap_of_mem_resultsByKey hplain) _),
    receiveAll_nil]

end Ensemble

end Formulary
