import Formulary.Proofs.Calculator.Frame
import Formulary.Proofs.Calculator.Progress
import Mathlib

/-!
# What is bound while a solve evaluates

Each expression of a bulk solve is evaluated with the values solved before it as data. While it is,
a name that has been solved should be bound to just that value, and every other name as it is in the
calculator. So it is, at every expression that a solve comes to, whatever the routines behind its
functions do, as long as mappings are promised to be flat or no solved value is one
(`get?_view_of_solveVisits`).

The proviso is needed: a mapping that is handed on as data is flattened, and its name is not bound.
-/

namespace Formulary

theorem Value.isMap_bare (v : Value) : v.bare.isMap = v.isMap := by
  fun_induction bare v with
  | case1 identity content ih => exact ih
  | case2 => rfl

namespace Ensemble

/-! ### The expressions that a run comes to -/

section

variable (one : Value → Run Value)

mutual

/-- Whether a computation for each of a nested list of expressions comes to one of them, and with
which ensemble. -/
def ComesTo : Value → Ensemble → Value → Ensemble → Prop
  | .list items, e, w, e' => AllComeTo items e w e'
  | .tuple items, e, w, e' => AllComeTo items e w e'
  | v, e, w, e' => w = v ∧ e' = e

/-- Whether a computation for the expressions of a list comes to one of them. It comes to those
behind the first one only if that is computed. -/
def AllComeTo : List Value → Ensemble → Value → Ensemble → Prop
  | [], _, _, _ => False
  | v :: rest, e, w, e' => ComesTo v e w e' ∨
    ∃ u after, (forEach one v).run e = (.ok u, after) ∧ AllComeTo rest after w e'

end

end

/-- Whether a solve comes from some progress to the evaluation of an expression with a name, what it
has found until then, and with which ensemble. -/
inductive Visits (library : Library) (setting : Setting) (n : Nat) (handler : SolveHandler)
    (named : List Named) :
    Progress → List String → Ensemble → Progress → Value → Ensemble → Prop
  | now {p : Progress} {name : String} {rest : List String} {e e' : Ensemble} {x : Named}
      {w : Value} (hfound : named.find? (·.name == name) = some x)
      (hbound : boundValue? (e.calculator n).view x.name = none)
      (h : ComesTo (evaluateOne setting (call library setting n) n · p.data) x.expression e w e') :
      Visits library setting n handler named p (name :: rest) e p w e'
  | later {p q r : Progress} {name : String} {rest : List String} {e after e' : Ensemble}
      {x : Named} {w : Value} (hfound : named.find? (·.name == name) = some x)
      (hrun : (solveOne (evaluateEach library setting n) handler n p x).run e = (.ok q, after))
      (h : Visits library setting n handler named q rest after r w e') :
      Visits library setting n handler named p (name :: rest) e r w e'
  | unknown {p q : Progress} {name : String} {rest : List String} {e e' : Ensemble} {w : Value}
      (hunknown : named.find? (·.name == name) = none)
      (h : Visits library setting n handler named p rest e q w e') :
      Visits library setting n handler named p (name :: rest) e q w e'

/-- Whether a bulk solve comes to the evaluation of an expression. -/
def SolveVisits (library : Library) (setting : Setting) (n : Nat) (handler : SolveHandler)
    (expressions : Value) (e : Ensemble) (q : Progress) (w : Value) (e' : Ensemble) : Prop :=
  ∃ named fault order c',
    namedExpressions (e.calculator n).bindings expressions = .ok (named, fault) ∧
    (solveOrder setting named fault).run (e.calculator n) = (.ok order, c') ∧
    Visits library setting n handler named .none order (e.put n c'.attached) q w e'

/-! ### Until an expression is evaluated -/

variable {library : Library} {setting : Setting} {n : Nat} {handler : SolveHandler}
  {named : List Named}

section

variable {R : Ensemble → Ensemble → Prop} [IsPreorder Ensemble R]

mutual

theorem advances_of_comesTo {one : Value → Run Value} (hone : ∀ v, Advances R (one v)) {w : Value}
    {e' : Ensemble} : ∀ (v : Value) {e : Ensemble}, ComesTo one v e w e' → R e e'
  | .list items, _, h => by
    rw [ComesTo] at h
    exact advances_of_allComeTo hone items h
  | .tuple items, _, h => by
    rw [ComesTo] at h
    exact advances_of_allComeTo hone items h
  | .none, _, h | .bool _, _, h | .int _, _, h | .float _, _, h | .complex _, _, h
  | .text _, _, h | .map _, _, h | .symbol _, _, h | .undefined, _, h | .node _, _, h
  | .cell .., _, h | .object .., _, h => by
    simp only [ComesTo] at h
    rw [h.2]
    exact Std.Refl.refl _

theorem advances_of_allComeTo {one : Value → Run Value} (hone : ∀ v, Advances R (one v)) {w : Value}
    {e' : Ensemble} : ∀ (vs : List Value) {e : Ensemble}, AllComeTo one vs e w e' → R e e'
  | [], _, h => by
    rw [AllComeTo] at h
    exact h.elim
  | v :: rest, e, h => by
    rw [AllComeTo] at h
    rcases h with h | ⟨u, after, hrun, h⟩
    · exact advances_of_comesTo hone v h
    · have hfirst : R e ((forEach one v).run e).2 := advances_forEach hone v e
      rw [hrun] at hfirst
      exact IsTrans.trans _ _ _ hfirst (advances_of_allComeTo hone rest h)

end

/-- **What a run leaves alone until it evaluates an expression**: what evaluations and the handler
leave alone. -/
theorem advances_of_visits (hcalls : ∀ (e : Ensemble) (calls : Nat), R e { e with calls := calls })
    (hone : ∀ expression data,
      Advances R (evaluateOne setting (call library setting n) n expression data))
    (hhandler : ∀ failure, Advances R (handler failure)) {p q : Progress} {order : List String}
    {w : Value} {e e' : Ensemble} (h : Visits library setting n handler named p order e q w e') :
    R e e' := by
  induction h with
  | now hfound hbound h => exact advances_of_comesTo (fun v => hone v _) _ h
  | @later p q r name rest e after e' x w hfound hrun h ih =>
    have hafter : R e ((solveOne (evaluateEach library setting n) handler n p x).run e).2 :=
      advances_solveOne hcalls (fun v data => advances_forEach (fun w => hone w data) v) hhandler n
        p x e
    rw [hrun] at hafter
    exact IsTrans.trans _ _ _ hafter ih
  | unknown hunknown h ih => exact ih

end

/-- Whether progress has values for some of the names only, each being a result, perhaps with its
objects marked. -/
structure Progress.IsFor (step : Nat) (named : List Named) (p : Progress) : Prop where
  nodup : (Table.keys p.solved).Nodup
  solved : ∀ z v, Table.get? p.solved z = some v → z ∈ namesOf named ∧
    ∃ w, Table.get? p.results z = some w ∧ (v = w ∨ v = w.identified (.result step z))

theorem isFor_none (step : Nat) (named : List Named) : Progress.none.IsFor step named :=
  ⟨List.nodup_nil, fun z v hv => by cases hv⟩

theorem Progress.IsFor.record {step : Nat} {p : Progress} (hp : p.IsFor step named) {x : Named}
    (hx : x ∈ named) (hnew : Table.get? p.solved x.name = Option.none) {o : Outcome}
    (ho : ∀ v, o.seen = some v → v = o.result ∨ v = o.result.identified (.result step x.name)) :
    (p.record x o).IsFor step named := by
  refine ⟨p.nodup_record hp.nodup x o, fun z v hv => ?_⟩
  rw [p.get?_solved_record] at hv
  rw [p.get?_results_record]
  by_cases hz : x.name = z
  · subst hz
    rw [if_pos rfl, hnew, Option.or_none] at hv
    rw [if_pos rfl]
    exact ⟨List.mem_map_of_mem hx, o.result, rfl, ho v hv⟩
  · rw [if_neg hz] at hv ⊢
    exact hp.solved z v hv

/-- Wherever a run evaluates an expression, its progress is one for its names. -/
theorem isFor_of_visits (hhandler : ∀ failure, Advances Steady (handler failure)) {p q : Progress}
    {order : List String} {w : Value} {e e' : Ensemble}
    (h : Visits library setting n handler named p order e q w e') (hp : p.IsFor e.step named)
    (horder : order.Nodup) (hnew : ∀ z ∈ order, Table.get? p.solved z = none) :
    q.IsFor e.step named := by
  induction h with
  | now hfound hbound h => exact hp
  | @later p q r name rest e after e' x w hfound hrun h ih =>
    obtain ⟨o, rfl, ho⟩ := exists_record_of_run_solveOne hrun
    have hname : x.name = name := by simpa using List.find?_some hfound
    have hstep : Steady e ((solveOne (evaluateEach library setting n) handler n p x).run e).2 :=
      advances_solveOne (fun _ _ => ⟨rfl, fun _ => rfl, fun _ => rfl⟩)
        (fun v data => advances_forEach (fun w => steady_evaluateOne n w data) v) hhandler n p x e
    rw [hrun] at hstep
    rw [List.nodup_cons] at horder
    have hq : (p.record x o).IsFor e.step named := hp.record (List.mem_of_find?_eq_some hfound)
      (hnew _ (by simp [hname])) ho
    rw [← hstep.step] at hq ⊢
    refine ih hq horder.2 fun z hz => ?_
    rw [p.get?_solved_record, if_neg, hnew z (List.mem_cons_of_mem _ hz)]
    rintro rfl
    exact horder.1 (hname ▸ hz)
  | unknown hunknown h ih =>
    exact ih hp (List.nodup_cons.mp horder).2 fun z hz => hnew z (List.mem_cons_of_mem _ hz)

/-! ### While an expression is evaluated -/

/-- A mapping stands for its name from the start, like all plain values. -/
theorem boundValue?_of_isMap {memory : Memory} {name : String} {v : Value}
    (h : Table.get? memory name = some v) (hv : v.isMap = true) :
    boundValue? memory name = some v := by
  rw [← Value.isMap_bare] at hv
  refine boundValue?_of_get? h (fun tree hbare => ?_) fun hbare => ?_
  · rw [hbare] at hv
    cases hv
  · rw [hbare] at hv
    cases hv

/-- **Solved values are visible**: wherever a bulk solve evaluates an expression, a name that has
been solved is bound to its value, which is its result, and every other name as in the calculator,
if mappings are promised to be flat or no solved value is one. Otherwise a name whose expression
came to a mapping is not bound to it. The bindings of the calculator are those at the start, unless
the handler of the solve changes them. -/
theorem get?_view_of_solveVisits (hhandler : ∀ failure, Advances Steady (handler failure))
    {expressions w : Value} {e e' : Ensemble} {q : Progress}
    (h : SolveVisits library setting n handler expressions e q w e') :
    ∃ inside, (e'.calculator n).openData q.data = .ok inside ∧
      (∀ m v, Table.get? q.solved m = some v → ∃ r, Table.get? q.results m = some r ∧
        (v = r ∨ v = r.identified (.result e.step m))) ∧
      ((e.calculator n).bindings.ignoreNested = true ∨
          (∀ m v, Table.get? q.solved m = some v → v.isMap = false) →
        ∀ m, Table.get? inside.view m =
          (Table.get? q.solved m).or (Table.get? (e'.calculator n).memory m)) ∧
      ((e.calculator n).bindings.ignoreNested = false →
        ∀ m v, Table.get? q.solved m = some v → v.isMap = true →
          boundValue? (e'.calculator n).memory m = none → Table.get? inside.view m ≠ some v) ∧
      ((∀ failure, Restores n (handler failure)) →
        (e'.calculator n).memory = (e.calculator n).memory) := by
  obtain ⟨named, fault, order, c', hnamed, horder, hvisits⟩ := h
  obtain ⟨hnodup, hnamedBy⟩ := namesOf_namedExpressions hnamed
  obtain ⟨hordersFor, hlearnt, -⟩ := Calculator.ordersFor_of_run_solveOrder hnodup horder
  have hq : q.IsFor (e.put n c'.attached).step named := isFor_of_visits hhandler hvisits
    (isFor_none _ named) (hordersFor.perm.nodup_iff.mpr hnodup) fun _ _ => rfl
  have hsteady : Steady (e.put n c'.attached) e' :=
    advances_of_visits (fun _ _ => ⟨rfl, fun _ => rfl, fun _ => rfl⟩)
      (fun v data => steady_evaluateOne n v data) hhandler hvisits
  have hstart : ((e.put n c'.attached).calculator n).bindings = (e.calculator n).bindings := by
    rw [calculator_put_self]
    exact hlearnt.bindings
  have hcase : (e'.calculator n).bindings.caseSensitive =
      (e.calculator n).bindings.caseSensitive := by rw [hsteady.caseSensitive, hstart]
  have hnested : (e'.calculator n).bindings.ignoreNested =
      (e.calculator n).bindings.ignoreNested := by rw [hsteady.ignoreNested, hstart]
  refine ⟨(e'.calculator n).opened (Mapping.ofNames q.solved), Calculator.openData_map _ _,
    fun m v hv => (hq.solved m v hv).2, ?_, ?_, fun hrestores => ?_⟩
  · rw [← hnested]
    intro hflat m
    refine Bindings.get?_writeAll_ofNames ⟨hq.nodup, fun name hname => ?_, ?_⟩ m
    · obtain ⟨v, hv⟩ := Table.exists_get?_of_mem hname
      obtain ⟨x, hx, rfl⟩ := List.mem_map.mp (hq.solved name v hv).1
      rw [hnamedBy x hx, Bindings.normalize, Bindings.normalize, hcase]
      exact Bindings.normalize_text_normalize _ x.key
    · exact hflat.imp_right fun hplain entry hentry =>
        hplain entry.1 entry.2 (Table.get?_of_mem hq.nodup hentry)
  · rw [← hnested]
    intro hflat m v hv hmap hbound hfound
    have hmemory := Bindings.get?_writeAll_of_isMap hflat hfound hmap
    rw [show boundValue? (e'.calculator n).memory m = some v from
      boundValue?_of_isMap hmemory hmap] at hbound
    cases hbound
  · have hrestored : Restored n (e.put n c'.attached) e' :=
      advances_of_visits (fun _ _ => ⟨rfl, rfl⟩) (fun v data => restores_evaluateOne n v data)
        hrestores hvisits
    rw [Calculator.memory, hrestored.bindings, hstart]
    rfl

/-- Two expressions, of which the second reads the first and what `c` is bound to. -/
def dependent : List Named := [⟨"a", .text "a", .text "2"⟩, ⟨"b", .text "b", .text "a + c"⟩]

/-- An ensemble of one calculator, in which `c` is bound. -/
def bindingC : Ensemble := Ensemble.empty.put 0 (.usual .empty [("c", .int 5)])

/-- A solve comes to the second expression when the first has been solved. -/
theorem exists_solveVisits_dependent : ∃ e', SolveVisits (fun _ => none) (.initial .empty) 0
    .lenient (.map (dependent.map fun x => (x.key, x.expression))) bindingC
    ⟨[("a", .int 2)], [("a", .int 2)]⟩ (.text "a + c") e' := by
  have hnamed : namedExpressions (bindingC.calculator 0).bindings
      (.map (dependent.map fun x => (x.key, x.expression))) = .ok (dependent, none) := by
    rw [bindingC, Calculator.usual_eq]
    cbv
  have horder : ((solveOrder (.initial .empty) dependent none).run (bindingC.calculator 0)).1 =
      .ok ["a", "b"] := by
    rw [bindingC, Calculator.usual_eq, Setting.initial_eq]
    cbv
  have hfirst : ((solveOne (evaluateEach (fun _ => none) (.initial .empty) 0) .lenient
      0 .none ⟨"a", .text "a", .text "2"⟩).run
        (bindingC.put 0 ((solveOrder (.initial .empty) dependent none).run
          (bindingC.calculator 0)).2.attached)).1 = .ok ⟨[("a", .int 2)], [("a", .int 2)]⟩ := by
    rw [bindingC, Calculator.usual_eq, Setting.initial_eq]
    cbv
  have hbound : boundValue? (((solveOne (evaluateEach (fun _ => none) (.initial .empty) 0) .lenient
      0 .none ⟨"a", .text "a", .text "2"⟩).run
        (bindingC.put 0 ((solveOrder (.initial .empty) dependent none).run
          (bindingC.calculator 0)).2.attached)).2.calculator 0).view "b" = none := by
    rw [bindingC, Calculator.usual_eq, Setting.initial_eq]
    cbv
  rcases hrun : (solveOne (evaluateEach (fun _ => none) (.initial .empty) 0) .lenient
      0 .none ⟨"a", .text "a", .text "2"⟩).run
        (bindingC.put 0 ((solveOrder (.initial .empty) dependent none).run
          (bindingC.calculator 0)).2.attached) with ⟨outcome, after⟩
  rw [hrun] at hfirst hbound
  obtain rfl := hfirst
  refine ⟨after, dependent, none, ["a", "b"], _, hnamed, Prod.ext horder rfl, ?_⟩
  exact .later rfl hrun (.now rfl hbound (by simp [ComesTo]))

/-- There the first expression's name is bound to its value, and `c` as before. -/
theorem get?_view_dependent : ∃ (e' : Ensemble) (inside : Calculator),
    SolveVisits (fun _ => none) (.initial .empty) 0 .lenient
      (.map (dependent.map fun x => (x.key, x.expression))) bindingC
      ⟨[("a", .int 2)], [("a", .int 2)]⟩ (.text "a + c") e' ∧
    (e'.calculator 0).openData (Progress.data ⟨[("a", .int 2)], [("a", .int 2)]⟩) = .ok inside ∧
    Table.get? inside.view "a" = some (.int 2) ∧ Table.get? inside.view "c" = some (.int 5) := by
  obtain ⟨e', hvisits⟩ := exists_solveVisits_dependent
  obtain ⟨inside, hinside, -, hview, -, hkept⟩ :=
    get?_view_of_solveVisits (fun _ => .ofExcept _) hvisits
  have hplain : ∀ m v, Table.get? [("a", Value.int 2)] m = some v → v.isMap = false := by
    intro m v hv
    obtain ⟨-, rfl⟩ := Prod.mk.inj (List.mem_singleton.mp (Table.mem_of_get? hv))
    rfl
  have hmemory : (e'.calculator 0).memory = [("c", .int 5)] := hkept fun _ => .ofExcept _
  have hc := hview (.inr hplain) "c"
  rw [hmemory] at hc
  exact ⟨e', inside, hvisits, hinside, hview (.inr hplain) "a", hc⟩

end Ensemble

end Formulary
