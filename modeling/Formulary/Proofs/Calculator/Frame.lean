import Formulary.Proofs.Bindings
import Formulary.Proofs.Calculator.Coupling

/-!
# What evaluations leave alone

A routine may do much with the calculators of an ensemble, but not change how their keys become
names, nor the step of the session. So no evaluation does (`Ensemble.steady_evaluateOne`), and since
it gives back the memory of the calculator that it runs on, it leaves the bindings of this one as
they were (`Ensemble.restores_evaluateOne`).

A bulk solve adds to its evaluations what its handler does, and nothing else: what both leave alone,
its loop does (`Ensemble.advances_solveNames`).
-/

namespace Formulary

namespace Ensemble

/-! ### Steadiness -/

/-- What an ensemble may have become under any computation: its calculators name keys as before, and
the step is the same. -/
structure Steady (e e' : Ensemble) : Prop where
  step : e'.step = e.step
  caseSensitive : ∀ m,
    (e'.calculator m).bindings.caseSensitive = (e.calculator m).bindings.caseSensitive
  ignoreNested : ∀ m,
    (e'.calculator m).bindings.ignoreNested = (e.calculator m).bindings.ignoreNested

namespace Steady

variable {e e' e'' : Ensemble}

theorem refl (e : Ensemble) : Steady e e := ⟨rfl, fun _ => rfl, fun _ => rfl⟩

theorem trans (h : Steady e e') (h' : Steady e' e'') : Steady e e'' where
  step := h'.step.trans h.step
  caseSensitive m := (h'.caseSensitive m).trans (h.caseSensitive m)
  ignoreNested m := (h'.ignoreNested m).trans (h.ignoreNested m)

/-- A calculator that names keys as before may take the place of its former self. -/
theorem put (h : Steady e e') {n : Nat} {c : Calculator}
    (hcase : c.bindings.caseSensitive = (e.calculator n).bindings.caseSensitive)
    (hflat : c.bindings.ignoreNested = (e.calculator n).bindings.ignoreNested) :
    Steady e (e'.put n c) where
  step := h.step
  caseSensitive m := by
    rw [calculator_put]
    split
    · next hm => rw [← hm, hcase]
    · exact h.caseSensitive m
  ignoreNested m := by
    rw [calculator_put]
    split
    · next hm => rw [← hm, hflat]
    · exact h.ignoreNested m

instance : IsPreorder Ensemble Steady where
  refl := refl
  trans _ _ _ := trans

end Steady

/-- Steadiness goes on over all steps of evaluations. -/
theorem coupling_steady (setting : Setting) (e₀ : Ensemble) :
    Coupling (fun _ => True) setting setting (fun e e' => e' = e ∧ Steady e₀ e) := by
  refine coupling_of_invariant (fun he _ _ => ⟨he.step, he.caseSensitive, he.ignoreNested⟩)
    (fun he n b _ hcase hflat => he.put (hcase.trans (he.caseSensitive n))
      (hflat.trans (he.ignoreNested n)))
    (fun he n _ => he.put (he.caseSensitive n) (he.ignoreNested n)) fun {e} he n expression => ?_
  obtain ⟨c, hrun, hlearnt⟩ := Calculator.run_resolve setting expression (e.calculator n)
  simp only [onOne, ExceptT.run_mk, hrun]
  refine he.put ?_ ?_
  · rw [hlearnt.bindings]
    exact he.caseSensitive n
  · rw [hlearnt.bindings]
    exact he.ignoreNested n

variable {library : Library} {setting : Setting}

/-- **No evaluation of an expression unsettles an ensemble**, however deep the calls in it are
nested. -/
theorem steady_evaluateOne (n : Nat) (expression data : Value) (e : Ensemble) :
    Steady e ((evaluateOne setting (call library setting n) n expression data).run e).2 := by
  have hcoupling := coupling_steady setting e
  have hcall := hcoupling.call (library.evaluatesOnly_of_forall fun _ => trivial) n
  exact (hcoupling.evaluateOne hcall n (fun _ _ => trivial) data).of_invariant (.refl e)

/-! ### Restored bindings -/

/-- What an ensemble may have become under an evaluation on one of its calculators: the bindings of
this one are as before, and the step is the same. -/
structure Restored (n : Nat) (e e' : Ensemble) : Prop where
  bindings : (e'.calculator n).bindings = (e.calculator n).bindings
  step : e'.step = e.step

theorem Restored.refl {n : Nat} (e : Ensemble) : Restored n e e := ⟨rfl, rfl⟩

theorem Restored.trans {n : Nat} {e e' e'' : Ensemble} (h : Restored n e e')
    (h' : Restored n e' e'') : Restored n e e'' :=
  ⟨h'.bindings.trans h.bindings, h'.step.trans h.step⟩

instance (n : Nat) : IsPreorder Ensemble (Restored n) where
  refl := .refl
  trans _ _ _ := .trans

/-- Whether a computation restores the bindings of a calculator, whatever it answers. -/
abbrev Restores (n : Nat) {ε α : Type} (run : ExceptT ε (StateM Ensemble) α) : Prop :=
  Advances (Restored n) run

/-- **An evaluation gives the bindings back**: the memory since the data is only there for its time,
the rest since no computation changes it. -/
theorem restores_evaluateOne (n : Nat) (expression data : Value) :
    Restores n (evaluateOne setting (call library setting n) n expression data) := by
  intro e
  have hsteady : Steady e ((evaluateOne setting (call library setting n) n expression data).run
      e).2 := steady_evaluateOne n expression data e
  have hmemory : (((evaluateOne setting (call library setting n) n expression data).run
      e).2.calculator n).memory = (e.calculator n).memory := memory_withData n data _ e
  exact ⟨Bindings.ext (hsteady.caseSensitive n) (hsteady.ignoreNested n) hmemory, hsteady.step⟩

/-! ### Solving -/

section

variable {R : Ensemble → Ensemble → Prop} [IsPreorder Ensemble R]

theorem advances_forEach {one : Value → Run Value} (h : ∀ v, Advances R (one v))
    (expression : Value) : Advances R (forEach one expression) :=
  forEach_rel (Advances.correspondence R) one one expression fun w _ => h w

variable (hcalls : ∀ (e : Ensemble) (calls : Nat), R e { e with calls := calls })

include hcalls

theorem advances_isolated {leave : Nat → Nat → Value → Value} {run : Run Value}
    (h : Advances R run) : Advances R (isolated leave run) := by
  intro e
  have he := h e
  rw [isolated, ExceptT.run_mk]
  rcases hrun : run.run e with ⟨outcome, after⟩
  rw [hrun] at he
  simp only
  split
  · exact he
  · exact IsTrans.trans _ _ _ he (hcalls after e.calls)

variable {evaluate : Value → Value → Run Value} {handler : SolveHandler}
  (hevaluate : ∀ expression data, Advances R (evaluate expression data))
  (hhandler : ∀ failure, Advances R (handler failure))

include hevaluate hhandler

theorem advances_solveAnew (p : Progress) (x : Named) :
    Advances R (solveAnew evaluate handler p x) := by
  intro e
  have he : R e ((isolated (Value.settled (.result e.step x.name))
      (evaluate x.expression p.data)).run e).2 :=
    advances_isolated hcalls (hevaluate x.expression p.data) e
  simp only [solveAnew, ExceptT.run_mk]
  rcases hrun : (isolated (Value.settled (.result e.step x.name))
    (evaluate x.expression p.data)).run e with ⟨fault | v, e'⟩
  · rw [hrun] at he
    simp only
    split
    -- the handler starts in the state that the failure has left
    · have hanswer : Advances R (p.answer x.name <$> handler ⟨fault, some x.name⟩) :=
        .bind (hhandler _) fun v => .pure _
      exact IsTrans.trans _ _ _ he (hanswer e')
    · exact he
  · rw [hrun] at he
    exact he

/-- What evaluations and the handler leave alone, a step of a solve does. -/
theorem advances_solveOne (n : Nat) (p : Progress) (x : Named) :
    Advances R (solveOne evaluate handler n p x) := by
  refine .get fun e => ?_
  split
  · exact .pure _
  · exact advances_solveAnew hcalls hevaluate hhandler p x

/-- What evaluations and the handler leave alone, a solve of names does. -/
theorem advances_solveNames (n : Nat) (named : List Named) (p : Progress) (order : List String) :
    Advances R (solveNames evaluate handler n named p order) := by
  induction order generalizing p with
  | nil => exact .pure p
  | cons name rest ih =>
    rw [solveNames]
    split
    · next x hx =>
      exact .bind (advances_solveOne hcalls hevaluate hhandler n p x) fun q => ih q
    · exact ih p

end

end Ensemble

end Formulary
