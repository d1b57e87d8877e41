import Formulary.Proofs.Calculator.Builtins
import Formulary.Proofs.Calculator.Locality
import Mathlib

/-!
# A bulk solve returns a solution

A bulk solve evaluates its expressions one after the other, each with the values solved before it as
data. If it returns, all of them have the same values when they are evaluated once more with
everything solved as data (`solves_of_run_solve`). The order alone does not give this: a value that
was had with some names still missing must not be another one when they are there. It is not, since
a name that is missing has no value at all, and an evaluation that comes to it fails.

The calculator is taken to have functions of its own only, so that evaluating again is the same
computation, and none of the names may be bound to a formula, which would be read before the name is
solved and hidden after that.
-/

namespace Formulary

namespace Ensemble

/-- Whether progress solves named expressions on the calculator of a number. A name that is bound
keeps its value. Every other expression has its result as its value with everything solved as data,
in which each name stands for the very objects of its result. -/
structure IsSolution (library : Library) (setting : Setting) (n : Nat) (e : Ensemble)
    (named : List Named) (p : Progress) : Prop where
  bound : ∀ x ∈ named, ∀ v, Table.get? (e.calculator n).memory x.name = some v →
    Table.get? p.results x.name = some v ∧ Table.get? p.solved x.name = some v
  evaluated : ∀ x ∈ named, Table.get? (e.calculator n).memory x.name = none →
    ∃ v, Table.get? p.results x.name = some v ∧
      Table.get? p.solved x.name = some (v.identified (.result e.step x.name)) ∧
      ((evaluateStrict library setting n x.expression p.data).run e).1 = .ok v
  named : ∀ z v, Table.get? p.solved z = some v → z ∈ namesOf named

variable {library : Library} {setting : Setting} {n : Nat} {c : Calculator} {e : Ensemble}

/-! ### Evaluating again -/

/-- Freeing the numbers of the calls in a computation that counts none changes nothing. -/
theorem follows_isolated {step : Nat} {run : Run Value} {count : Counting Value}
    (hf : Follows setting n c step run count) (hquiet : ∀ k, (count.run k).2 = k)
    (leave : Nat → Nat → Value → Value) :
    Follows setting n c step (isolated leave run) count := by
  intro e hc hs
  obtain ⟨e', hrun, hcalls, hlearnt⟩ :=
    run_isolated_of_follows hf hc hs (.inl (hquiet e.calls)) leave
  rw [if_pos (hquiet e.calls)] at hrun
  exact ⟨e', hrun, hcalls.trans (hquiet e.calls).symm, hlearnt⟩

theorem follows_evaluateStrict {step : Nat} {data : Mapping} {expression : Value}
    (hc : c.CallsOnly setting (Function.IsOwn library setting.sheet))
    (hdata : ∀ entry ∈ data, ∀ f ∈ entry.2.functions, f.IsOwn library setting.sheet)
    (hexpression : ∀ w ∈ expression.singles, ∀ f ∈ w.functions, f.IsOwn library setting.sheet) :
    Follows setting n c step (evaluateStrict library setting n expression (.map data))
      (forEach (c.valueOf library setting step data) expression) := by
  refine forEach_rel (following setting n c step) _ _ expression fun w hw => ?_
  refine follows_isolated (follows_evaluateOne (fun e he f hf => ?_) fun z v hv f hf => ?_)
    (Calculator.quiet_valueOf hc hdata (hexpression w hw)) _
  · exact (hc.functions_treeOf (hexpression w hw) he f hf).isPassive
  · exact (hc.functions_opened hdata hv f hf).isPassive

/-! ### Solutions of the equations -/

section

variable {named xs : List Named} {p : Progress} {calls : Nat}

/-- What is bound when some of the names are still missing is bound the same way when none is, if
the calculator binds the names to what they were solved to or not at all. -/
theorem get?_opened_of_isWithout {missing : List String} {part : Table String Value}
    (hpart : IsWithout missing p.solved part) (hflat : c.bindings.IsFlat p.solved)
    (hkept : ∀ z ∈ missing, ∀ v, Table.get? c.memory z = some v → Table.get? p.solved z = some v)
    {z : String} {v : Value} (h : Table.get? (c.opened (Mapping.ofNames part)).memory z = some v) :
    Table.get? (c.opened (Mapping.ofNames p.solved)).memory z = some v := by
  rw [Calculator.get?_opened_ofNames (hpart.isFlat hflat), hpart.get?] at h
  rw [Calculator.get?_opened_ofNames hflat]
  split at h
  · next hz => rw [hkept z hz v h, Option.some_or]
  · exact h

/-! ### The main result -/

variable {expressions : Value}

/-- What a solve has found is a solution, on calculators with functions of their own only. -/
theorem isSolution_of_run_solveFlat {e₁ : Ensemble}
    (hc : (e.calculator n).CallsOnly setting (Function.IsOwn library setting.sheet))
    (hexpressions : ∀ x ∈ named, ∀ w ∈ x.expression.singles, ∀ f ∈ w.functions,
      f.IsOwn library setting.sheet)
    (hbound : ∀ x ∈ named, ∀ v, Table.get? (e.calculator n).memory x.name = some v →
      boundValue? (e.calculator n).memory x.name = some v)
    (h : (solveFlat library setting n .strict expressions).run e = (.ok (named, p), e₁))
    (hplain : ∀ x ∈ named, ∀ v, Table.get? p.results x.name = some v → v.isMap = false) :
    IsSolution library setting n e₁ named p := by
  obtain ⟨xs, hnamed, hperm, -, hsolve, hknown, hcalls, hlearnt⟩ :=
    solveBy_of_callsOnly hc hexpressions h
  obtain ⟨hnodup, hnamedBy⟩ := namesOf_namedExpressions hnamed
  have hnames : (namesOf xs).Perm (namesOf named) := hperm.map _
  have hnodup' : (namesOf xs).Nodup := hnames.nodup_iff.mpr hnodup
  have hkept : ∀ x ∈ named, ∀ v, Table.get? (e.calculator n).memory x.name = some v →
      Table.get? p.results x.name = some v ∧ Table.get? p.solved x.name = some v :=
    fun x hx v hv => solved_of_boundValue? hnodup' hsolve (hperm.mem_iff.mpr hx) (hbound x hx v hv)
  have hflat : (e.calculator n).bindings.IsFlat p.solved :=
    isFlat_solved hnamedBy hnodup' (fun x hx => hperm.mem_iff.mp hx) hsolve (.inr hplain)
  refine ⟨?_, ?_, fun z v hz => hnames.mem_iff.mp (mem_namesOf_of_get?_solved hsolve hz)⟩
  · intro x hx v hv
    rw [hlearnt.calculator.memory] at hv
    exact hkept x hx v hv
  · intro x hx hnone
    rw [hlearnt.calculator.memory] at hnone
    obtain ⟨part, o, hbefore, ho, hresult, hseen⟩ :=
      exists_outcome_of_mem hnodup' hsolve (hperm.mem_iff.mpr hx)
    obtain ⟨missing, hmissing, hpart⟩ := hbefore.exists_isWithout
    have hunbound : boundValue? (e.calculator n).memory x.name = none := by
      rw [boundValue?, hnone]
    obtain ⟨houtcome, hmarked⟩ := outcome_of_equations_strict hunbound ho
    rw [Calculator.outcome_eq hc hexpressions
      (fun entry hentry => hknown entry (hpart.mem hentry)) hx] at houtcome
    -- the names that were missing are bound now, and nothing else has changed
    have hmono : ∀ z v,
        Table.get? ((e.calculator n).opened (Mapping.ofNames part)).memory z = some v →
        Table.get? ((e.calculator n).opened (Mapping.ofNames p.solved)).memory z = some v := by
      intro z v
      refine get?_opened_of_isWithout hpart hflat fun z hz v hv => ?_
      obtain ⟨y, hy, rfl⟩ := List.mem_map.mp (hmissing hz)
      exact (hkept y (hperm.mem_iff.mp hy) v hv).2
    have hagain := Calculator.forEach_valueOf_mono rfl
      (fun _ _ e _ => Memory.isKeptOn_of_forall hmono e) (Prod.ext houtcome rfl)
    obtain ⟨e', hrun, -, -⟩ := follows_evaluateStrict hc (Calculator.functions_ofNames hknown)
      (hexpressions x hx) e₁ hlearnt.calculator hlearnt.step
    refine ⟨o.result, hresult, ?_, ?_⟩
    · rw [hseen, hmarked, hlearnt.step]
    · rw [show p.data = .map (Mapping.ofNames p.solved) from rfl, hrun, hcalls, hagain]

/-- **A bulk solve returns a solution of its equations**: if it returns and no result is a mapping,
what it returns are the nested results of progress that is a solution. -/
theorem solves_of_run_solve {w : Value} {e' : Ensemble}
    (hc : (e.calculator n).CallsOnly setting (Function.IsOwn library setting.sheet))
    (hnamed : namedExpressions (e.calculator n).bindings expressions = .ok (named, none))
    (hexpressions : ∀ x ∈ named, ∀ w ∈ x.expression.singles, ∀ f ∈ w.functions,
      f.IsOwn library setting.sheet)
    (hbound : ∀ x ∈ named, ∀ v, Table.get? (e.calculator n).memory x.name = some v →
      (∀ tree, v.bare ≠ .node tree) ∧ v.bare ≠ .undefined)
    (h : (solve library setting n .strict expressions).run e = (.ok w, e')) :
    ∃ p e₁, (solveFlat library setting n .strict expressions).run e = (.ok (named, p), e₁) ∧
      ((∀ x ∈ named, ∀ v, Table.get? p.results x.name = some v → v.isMap = false) →
        w = .map (Mapping.expand (resultsByKey named p)) ∧
          IsSolution library setting n e' named p) := by
  obtain ⟨named', p, e₁, hflat⟩ := exists_run_solveFlat_of_run_solve h
  obtain ⟨fault, order, c', after, hnamed', -⟩ := run_solveFlat_eq_ok_iff.mp hflat
  obtain ⟨rfl, -⟩ := Prod.ext_iff.mp (Except.ok.inj (hnamed'.symm.trans hnamed))
  refine ⟨p, e₁, hflat, fun hplain => ?_⟩
  obtain ⟨hw, rfl⟩ := Prod.ext_iff.mp (h.symm.trans (run_solve_of_isMap hflat hplain))
  refine ⟨Except.ok.inj hw, isSolution_of_run_solveFlat hc hexpressions ?_ hflat hplain⟩
  intro x hx v hv
  obtain ⟨hnode, hundefined⟩ := hbound x hx v hv
  exact boundValue?_of_get? hv hnode hundefined

end

/-- Three expressions: the first reads the second and the third, and the third has a value where
`c` is bound. -/
def threeExpressions : List Named :=
  [⟨"b", .text "b", .text "a + c"⟩, ⟨"a", .text "a", .text "2"⟩, ⟨"c", .text "c", .text "7"⟩]

/-- With `c` bound, the three expressions have a solution that is found. -/
theorem isSolution_threeExpressions :
    ∃ p e', (solve (fun _ => none) (.initial .empty) 0 .strict
        (.map (threeExpressions.map fun x => (x.key, x.expression)))).run
          (Ensemble.empty.put 0 (.usual .empty [("c", .int 5)])) =
        (.ok (.map [(.text "b", .int 7), (.text "a", .int 2), (.text "c", .int 5)]), e') ∧
      IsSolution (fun _ => none) (.initial .empty) 0 e' threeExpressions p := by
  have hrun : ((solve (fun _ => none) (.initial .empty) 0 .strict
      (.map (threeExpressions.map fun x => (x.key, x.expression)))).run
        (Ensemble.empty.put 0 (.usual .empty [("c", .int 5)]))).1 =
      .ok (.map [(.text "b", .int 7), (.text "a", .int 2), (.text "c", .int 5)]) := by
    rw [Calculator.usual_eq, Setting.initial_eq]
    cbv
  have hflat : ((solveFlat (fun _ => none) (.initial .empty) 0 .strict
      (.map (threeExpressions.map fun x => (x.key, x.expression)))).run
        (Ensemble.empty.put 0 (.usual .empty [("c", .int 5)]))).1 =
      .ok (threeExpressions, ⟨[("a", .int 2), ("c", .int 5), ("b", .int 7)],
        [("a", .int 2), ("c", .int 5), ("b", .int 7)]⟩) := by
    rw [Calculator.usual_eq, Setting.initial_eq]
    cbv
  have hc : ((Ensemble.empty.put 0 (.usual .empty [("c", .int 5)])).calculator 0).CallsOnly
      (.initial .empty) (Function.IsOwn (fun _ => none) .empty) := by
    rw [calculator_put_self]
    exact Calculator.callsOnly_usual _ (by simp [Value.functions])
  have hnamed : namedExpressions ((Ensemble.empty.put 0
      (.usual .empty [("c", .int 5)])).calculator 0).bindings
      (.map (threeExpressions.map fun x => (x.key, x.expression))) =
        .ok (threeExpressions, none) := by
    rw [Calculator.usual_eq]
    cbv
  have hbound : ∀ x ∈ threeExpressions, ∀ v,
      Table.get? ((Ensemble.empty.put 0 (.usual .empty [("c", .int 5)])).calculator 0).memory
        x.name = some v → (∀ tree, v.bare ≠ .node tree) ∧ v.bare ≠ .undefined := by
    intro x hx v hv
    rw [calculator_put_self] at hv
    obtain ⟨-, rfl⟩ := Prod.ext_iff.mp (List.mem_singleton.mp (Table.mem_of_get? hv))
    refine ⟨fun tree hbare => ?_, fun hbare => ?_⟩ <;> cases hbare
  obtain ⟨p, e₁, hp, hsolution⟩ := solves_of_run_solve hc hnamed
    (by simp [threeExpressions, Value.singles, Value.functions]) hbound (Prod.ext hrun rfl)
  rw [hp] at hflat
  obtain ⟨-, rfl⟩ := Prod.ext_iff.mp (Except.ok.inj hflat)
  refine ⟨_, _, Prod.ext hrun rfl, (hsolution ?_).2⟩
  intro x hx v hv
  have hint := Table.mem_of_get? hv
  simp only [List.mem_cons, Prod.mk.injEq, List.not_mem_nil, or_false] at hint
  rcases hint with ⟨-, rfl⟩ | ⟨-, rfl⟩ | ⟨-, rfl⟩
  all_goals rfl

end Ensemble

end Formulary
