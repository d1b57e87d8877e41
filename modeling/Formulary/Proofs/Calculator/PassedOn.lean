import Formulary.Proofs.Calculator.Sufficiency
import Formulary.Proofs.Calculator.Visibility
import Formulary.Proofs.Token.Recasing

/-!
# Failures that are passed on

A circle is found by the order of a solve, and an evaluation never comes to one: trees, parsing and
builtins fail in other ways, and so does a routine or a function of the spreadsheet library, unless
it ends with a circle of its own making (`failsOnly_evaluateOne`). So a solve that has an order and
fails with a circle all the same only passes on what a function or its handler made
(`passesOn_of_run_solve`).
-/

namespace Formulary

/-- Whether a script fails in allowed ways only, as long as the actions that it performs do. -/
def Script.FailsOnly (Allowed : Error → Prop) : Script → Prop
  | .done result => ∀ fault, result = .error fault → Allowed fault
  | .act _ next => ∀ outcome, (∀ fault, outcome = .error fault → Allowed fault) →
    (next outcome).FailsOnly Allowed

/-- Whether all routines of a library fail in allowed ways only. -/
def Library.FailsOnly (Allowed : Error → Prop) (library : Library) : Prop :=
  ∀ key routine, library key = some routine → ∀ args, (routine.run args).FailsOnly Allowed

/-- Whether a failure is any other than a circle. -/
def Error.IsNoCircle (fault : Error) : Prop := fault.kind ≠ .circular

theorem Error.isNoCircle_of_isOfValues {fault : Error} (h : fault.kind.isOfValues = true) :
    fault.IsNoCircle := by
  intro hcircle
  rw [hcircle] at h
  cases h

/-! ### Parsing -/

theorem Expr.isNoCircle_of_ofText {lexer : LexerOptions} {parser : ParserOptions} {text : String}
    {fault : Error} (h : Expr.ofText lexer parser text = .error fault) : fault.IsNoCircle := by
  rw [ofText] at h
  rcases htokens : Token.scan lexer text with fault' | tokens
  · rw [htokens] at h
    obtain rfl := Except.error.inj h
    obtain ⟨c, place, rfl⟩ := Token.exists_unexpected_of_scanFrom htokens
    exact ErrorKind.noConfusion
  · rw [htokens] at h
    obtain ⟨parseFault, rfl⟩ := exists_fault_of_ofTokens (Token.areSpelled_scanFrom htokens) h
    exact ErrorKind.noConfusion

theorem Calculator.isNoCircle_of_treeOf {setting : Setting} {c : Calculator} {expression : Value}
    {fault : Error} (h : c.treeOf setting expression = .error fault) : fault.IsNoCircle := by
  rw [treeOf] at h
  split at h
  · split at h
    · cases h
    · obtain rfl := Except.error.inj h
      exact ErrorKind.noConfusion
  · split at h
    · cases h
    · exact Expr.isNoCircle_of_ofText h
    · cases h

namespace Ensemble

/-! ### Evaluations -/

theorem failsOnly_onOne {α : Type} {Allowed : Error → Prop} (n : Nat) {run : Calculator.Run α}
    (h : FailsOnly Allowed run) : FailsOnly Allowed (onOne n run) := fun e fault hfault =>
  h (e.calculator n) fault hfault

theorem failsOnly_resolve (setting : Setting) (expression : Value) :
    FailsOnly Error.IsNoCircle (Calculator.resolve setting expression) := by
  intro c fault h
  obtain ⟨c', hrun, -⟩ := Calculator.run_resolve setting expression c
  rw [hrun] at h
  exact Calculator.isNoCircle_of_treeOf h

theorem failsOnly_withData {α : Type} (n : Nat) (data : Value) {body : Run α}
    (hbody : FailsOnly Error.IsNoCircle body) :
    FailsOnly Error.IsNoCircle (withData n data body) := by
  intro e fault h
  simp only [withData, ExceptT.run_mk] at h
  rcases hopen : (e.calculator n).openData data with other | inside
  · rw [hopen] at h
    obtain rfl := Except.error.inj h
    rw [Calculator.openData_eq] at hopen
    split at hopen
    · cases hopen
    · obtain rfl := Except.error.inj hopen
      exact ErrorKind.noConfusion
  · rw [hopen] at h
    exact hbody (e.put n inside) fault h

section

variable {call : Function → List Value → Run Value}
  (hcall : ∀ f args, FailsOnly Error.IsNoCircle (call f args))

include hcall

/-- The value of a tree fails as the calls in it do, or in ways that are no circles. -/
theorem failsOnly_evalWithin (n depth : Nat) (e : Expr) :
    FailsOnly Error.IsNoCircle (e.evalWithin (surroundings call n) depth) := by
  have hdeep : Error.tooDeep.IsNoCircle := ErrorKind.noConfusion
  refine Expr.evalWithin_stepwise (FailsOnly.stepwise Ensemble Error.IsNoCircle)
    (surroundings call n) (surroundings call n) (fun _ => True)
    (FailsOnly.ofOperators fun _ => Error.isNoCircle_of_isOfValues) (.throw hdeep) ?_ ?_
    (fun _ f _ => hcall f) depth trivial
  · intro formula _ key
    show FailsOnly Error.IsNoCircle _
    rw [evalBy_keyed]
    exact .throw ErrorKind.noConfusion
  · intro formula _ _ _ hformula name _
    show FailsOnly Error.IsNoCircle _
    rw [Expr.evalBy]
    refine .bind (.get fun _ => .pure _) fun found => ?_
    rcases found with - | v
    · exact .throw ErrorKind.noConfusion
    · exact (FailsOnly.stepwise Ensemble Error.IsNoCircle).followed fun e' _ => hformula e' trivial

theorem failsOnly_evaluateOne_of_call (setting : Setting) (n : Nat) (expression data : Value) :
    FailsOnly Error.IsNoCircle (evaluateOne setting call n expression data) := by
  refine failsOnly_withData n data
    (.bind (failsOnly_onOne n (failsOnly_resolve setting expression)) fun e => ?_)
  refine .get fun ensemble => ?_
  show FailsOnly _ (if _ then _ else _)
  split
  · exact .throw ErrorKind.noConfusion
  · exact failsOnly_evalWithin hcall n formulaLimit e

theorem failsOnly_evaluateOneOr_of_call (setting : Setting) (n : Nat) (expression data : Value) :
    FailsOnly Error.IsNoCircle
      (evaluateOneOr setting call n Handler.silent expression data) := by
  refine .tryCatch (failsOnly_evaluateOne_of_call hcall setting n expression data)
    fun fault hfault => ?_
  split
  · exact .pure Value.none
  · exact .throw hfault

end

/-! ### Calls -/

theorem failsOnly_perform {evaluate evaluateStrict : Value → Value → Run Value}
    (hevaluate : ∀ expression data, FailsOnly Error.IsNoCircle (evaluate expression data))
    (hstrict : ∀ expression data, FailsOnly Error.IsNoCircle (evaluateStrict expression data))
    (n : Nat) (action : Action) :
    FailsOnly Error.IsNoCircle (perform n evaluate evaluateStrict action) := by
  cases action with
  | read key =>
    refine .get fun e => ?_
    rcases (e.calculator n).bindings.get? key with - | v
    · exact .throw ErrorKind.noConfusion
    · exact .pure v
  | store key value =>
    rintro e fault ⟨⟩
  | storeAll data =>
    refine failsOnly_onOne n (.get fun c => .bind (.ofExcept fun fault h => ?_) fun bindings => ?_)
    · rcases hentries : data.entries? with - | entries
      · simp only [Bindings.store, hentries] at h
        obtain rfl := Except.error.inj h
        exact ErrorKind.noConfusion
      · simp only [Bindings.store, hentries] at h
        cases h
    · rintro c fault ⟨⟩
  | look name =>
    refine .get fun e => ?_
    rcases Table.get? (e.calculator n).view name with - | v
    · exact .throw ErrorKind.noConfusion
    · exact .pure v
  | clear | clearCache forgets | readNotes | note text =>
    rintro e fault ⟨⟩
  | evaluate expression data => exact hevaluate expression data
  | evaluateStrict expression data => exact hstrict expression data

/-- A script goes on with the outcomes of its actions, and these are allowed. -/
theorem failsOnly_runScript {Allowed : Error → Prop} {perform : Action → Run Value}
    (hperform : ∀ action, FailsOnly Allowed (perform action)) {script : Script}
    (hscript : script.FailsOnly Allowed) : FailsOnly Allowed (runScript perform script) := by
  induction script with
  | done result =>
    rw [runScript]
    exact .ofExcept hscript
  | act action next ih =>
    intro e fault h
    have hstep : runScript perform (.act action next) =
        (tryCatch (perform action >>= fun v => Pure.pure (Except.ok v))
          (fun caught => Pure.pure (.error caught)) : Run (Except Error Value)) >>=
            fun outcome => runScript perform (next outcome) := rfl
    rw [hstep, Stateful.run_bind, Stateful.run_tryCatch, Stateful.run_bind] at h
    rcases hrun : (perform action).run e with ⟨caught | v, e'⟩
    · -- the routine sees the failure and may go on, or fail with it
      have hcaught : Allowed caught := hperform action e caught (by rw [hrun])
      rw [hrun] at h
      refine ih (.error caught) (hscript _ ?_) e' fault h
      rintro _ ⟨⟩
      exact hcaught
    · rw [hrun] at h
      refine ih (.ok v) (hscript _ ?_) e' fault h
      rintro _ ⟨⟩

/-- A routine evaluates with fewer calls open, and these fail as they should. -/
theorem failsOnly_runScript_of_call {call : Function → List Value → Run Value}
    (hcall : ∀ f args, FailsOnly Error.IsNoCircle (call f args)) (setting : Setting) (m : Nat)
    {script : Script} (hscript : script.FailsOnly Error.IsNoCircle) :
    FailsOnly Error.IsNoCircle
      (runScript
        (perform m
          (fun expression data =>
            forEach (evaluateOneOr setting call m Handler.silent · data) expression)
          (fun expression data => forEach (evaluateOne setting call m · data) expression))
        script) := by
  refine failsOnly_runScript (fun action => ?_) hscript
  apply failsOnly_perform
  · intro expression data
    exact failsOnly_forEach expression fun w _ =>
      failsOnly_evaluateOneOr_of_call hcall setting m w data
  · intro expression data
    exact failsOnly_forEach expression fun w _ =>
      failsOnly_evaluateOne_of_call hcall setting m w data

theorem failsOnly_callWithin {library : Library} (hlibrary : library.FailsOnly Error.IsNoCircle)
    {setting : Setting} (hsheet : ∀ name, setting.sheet.FailsOnly Error.IsNoCircle name)
    (depth n : Nat) (f : Function) (args : List Value) :
    FailsOnly Error.IsNoCircle (callWithin library setting depth n f args) := by
  -- on the calls that may still be opened, since a routine evaluates with one less
  induction depth using Nat.strongRecOn generalizing n f args with
  | _ depth ih =>
    rw [callWithin]
    split
    · split
      · split
        · next routine depth hroutine =>
          refine .bind (fun e fault h => by cases h) fun marked => ?_
          have hinner := ih depth (Nat.lt_succ_self depth)
          exact failsOnly_runScript_of_call (fun g args => hinner _ g args) setting _
            (hlibrary _ routine hroutine marked)
        · exact .throw ErrorKind.noConfusion
        · exact .throw ErrorKind.noConfusion
      · exact .throw ErrorKind.noConfusion
    · next hbody =>
      exact .ofExcept fun fault hfault =>
        Function.failsOnly_applyPure (fun _ => Error.isNoCircle_of_isOfValues) hbody
          (fun name _ => hsheet name) hfault

/-- **An evaluation fails with a circle only if a routine does**, or a function of the spreadsheet
library. -/
theorem failsOnly_evaluateOne {library : Library} (hlibrary : library.FailsOnly Error.IsNoCircle)
    {setting : Setting} (hsheet : ∀ name, setting.sheet.FailsOnly Error.IsNoCircle name) (n m : Nat)
    (expression data : Value) :
    FailsOnly Error.IsNoCircle (evaluateOne setting (call library setting m) n expression data) :=
  failsOnly_evaluateOne_of_call (failsOnly_callWithin hlibrary hsheet reentryLimit m) setting n
    expression data

/-! ### Where a solve fails -/

section

variable {one : Value → Run Value}

mutual

/-- A computation for each of a nested list of expressions fails at one that it comes to. -/
theorem exists_comesTo_of_error : ∀ (v : Value) {e : Ensemble} {fault : Error},
    ((forEach one v).run e).1 = .error fault →
    ∃ w e', ComesTo one v e w e' ∧ ((one w).run e').1 = .error fault
  | .list items, e, fault, h | .tuple items, e, fault, h => by
    rw [forEach, Stateful.run_bind] at h
    rcases hrun : (forAll one items).run e with ⟨caught | vs, after⟩
    · rw [hrun] at h
      obtain rfl := Except.error.inj h
      obtain ⟨w, e', hcomes, hfault⟩ := exists_allComeTo_of_error items (by rw [hrun])
      refine ⟨w, e', ?_, hfault⟩
      rw [ComesTo]
      exact hcomes
    · rw [hrun] at h
      cases h
  | .none, e, _, h | .bool _, e, _, h | .int _, e, _, h | .float _, e, _, h
  | .complex _, e, _, h | .text _, e, _, h | .map _, e, _, h | .symbol _, e, _, h
  | .undefined, e, _, h | .node _, e, _, h | .cell .., e, _, h | .object .., e, _, h => by
    simp only [forEach] at h
    exact ⟨_, e, by simp [ComesTo], h⟩

theorem exists_allComeTo_of_error : ∀ (vs : List Value) {e : Ensemble} {fault : Error},
    ((forAll one vs).run e).1 = .error fault →
    ∃ w e', AllComeTo one vs e w e' ∧ ((one w).run e').1 = .error fault
  | [], e, fault, h => by
    rw [forAll] at h
    cases h
  | v :: rest, e, fault, h => by
    rw [forAll, Stateful.run_bind] at h
    simp only [AllComeTo]
    rcases hrun : (forEach one v).run e with ⟨caught | u, after⟩
    · rw [hrun] at h
      obtain rfl := Except.error.inj h
      obtain ⟨w, e', hcomes, hfault⟩ := exists_comesTo_of_error v (by rw [hrun])
      exact ⟨w, e', .inl hcomes, hfault⟩
    · rw [hrun] at h
      simp only [Stateful.run_bind] at h
      rcases hrest : (forAll one rest).run after with ⟨caught | us, last⟩
      · rw [hrest] at h
        obtain rfl := Except.error.inj h
        obtain ⟨w, e', hcome, hfault⟩ := exists_allComeTo_of_error rest (by rw [hrest])
        exact ⟨w, e', .inr ⟨u, after, rfl, hcome⟩, hfault⟩
      · rw [hrest] at h
        cases h

end

end

variable {library : Library} {setting : Setting} {n : Nat} {handler : SolveHandler}

/-- Whether a failure is what becomes of the failure of an expression: a recoverable one is for the
handler, and all others stay what they are. -/
def ComesFrom (handler : SolveHandler) (fault : Error) (failure : Failure) : Prop :=
  if fault.IsRecoverable then
    ∃ name e, ((handler ⟨fault, some name⟩).run e).1 = .error failure
  else failure = ⟨fault, none⟩

/-- Freeing the numbers of calls leaves a failure as it is. -/
theorem run_of_run_isolated {leave : Nat → Nat → Value → Value} {run : Run Value} {e : Ensemble}
    {fault : Error} (h : ((isolated leave run).run e).1 = .error fault) :
    (run.run e).1 = .error fault := by
  rw [isolated, ExceptT.run_mk] at h
  rcases hrun : run.run e with ⟨caught | v, after⟩
  · rw [hrun] at h
    simp only at h
    split at h
    · exact h
    · exact h
  · rw [hrun] at h
    simp only at h
    split at h
    · cases h
    · cases h

/-- A step of a solve fails with an expression that it comes to. -/
theorem exists_comesTo_of_run_solveOne {p : Progress} {x : Named} {e after : Ensemble}
    {failure : Failure}
    (h : (solveOne (evaluateEach library setting n) handler n p x).run e =
      (.error failure, after)) :
    boundValue? (e.calculator n).view x.name = none ∧ ∃ w e' fault,
      ComesTo (evaluateOne setting (call library setting n) n · p.data) x.expression e w e' ∧
      ((evaluateOne setting (call library setting n) n w p.data).run e').1 = .error fault ∧
      ComesFrom handler fault failure := by
  rw [solveOne, Stateful.run_bind, Stateful.run_get] at h
  simp only at h
  rcases hbound : boundValue? (e.calculator n).view x.name with - | v
  · refine ⟨rfl, ?_⟩
    rw [hbound] at h
    simp only [solveAnew, ExceptT.run_mk] at h
    rcases hrun : (isolated (Value.settled (.result e.step x.name))
      (evaluateEach library setting n x.expression p.data)).run e with ⟨fault | v, e'⟩
    · rw [hrun] at h
      have heach : ((evaluateEach library setting n x.expression p.data).run e).1 =
          .error fault := run_of_run_isolated (by rw [hrun])
      obtain ⟨w, e₁, hcomes, hfault⟩ := exists_comesTo_of_error x.expression heach
      refine ⟨w, e₁, fault, hcomes, hfault, ?_⟩
      rw [ComesFrom]
      -- only a recoverable fault is put to the handler, and here its answer is a failure
      by_cases hrecoverable : fault.IsRecoverable
      · simp only [if_pos hrecoverable] at h ⊢
        refine ⟨x.name, e', ?_⟩
        rw [map_eq_pure_bind, Stateful.run_bind] at h
        rcases hanswer : (handler ⟨fault, some x.name⟩).run e' with ⟨other | v, e₂⟩
        · rw [hanswer] at h
          rw [Except.error.inj (Prod.mk.inj h).1]
        · rw [hanswer] at h
          cases h
      · simp only [if_neg hrecoverable] at h ⊢
        exact (Except.error.inj (Prod.mk.inj h).1).symm
    · rw [hrun] at h
      cases h
  · rw [hbound] at h
    cases h

/-- A run through names fails with an expression that it visits. -/
theorem exists_visits_of_run_solveNames {named : List Named} {p : Progress}
    {order : List String} {e after : Ensemble} {failure : Failure}
    (h : (solveNames (evaluateEach library setting n) handler n named p order).run e =
      (.error failure, after)) :
    ∃ q w e' fault, Visits library setting n handler named p order e q w e' ∧
      ((evaluateOne setting (call library setting n) n w q.data).run e').1 = .error fault ∧
      ComesFrom handler fault failure := by
  induction order generalizing p e with
  | nil => cases h
  | cons name rest ih =>
    rw [solveNames] at h
    rcases hfound : named.find? (·.name == name) with - | x
    · rw [hfound] at h
      obtain ⟨q, w, e', fault, hvisits, hfault⟩ := ih h
      exact ⟨q, w, e', fault, .unknown hfound hvisits, hfault⟩
    · rw [hfound] at h
      simp only [Stateful.run_bind] at h
      rcases hrun : (solveOne (evaluateEach library setting n) handler n p x).run e with
        ⟨other | q, e₁⟩
      · -- the failure of this step is that of the run, and nothing after it is visited
        rw [hrun] at h
        obtain rfl := Except.error.inj (Prod.mk.inj h).1
        obtain ⟨hbound, w, e', fault, hcomes, hfault⟩ := exists_comesTo_of_run_solveOne hrun
        exact ⟨p, w, e', fault, .now hfound hbound hcomes, hfault⟩
      · rw [hrun] at h
        obtain ⟨r, w, e', fault, hvisits, hfault⟩ := ih h
        exact ⟨r, w, e', fault, .later hfound hrun hvisits, hfault⟩

/-- Whether a solve comes to the evaluation of an expression and passes on its failure, or what the
handler makes of it. -/
def PassesOn (library : Library) (setting : Setting) (n : Nat) (handler : SolveHandler)
    (expressions : Value) (e : Ensemble) (failure : Failure) : Prop :=
  ∃ q w e' fault, SolveVisits library setting n handler expressions e q w e' ∧
    ((evaluateOne setting (call library setting n) n w q.data).run e').1 = .error fault ∧
    ComesFrom handler fault failure

/-- Whether a handler fails with a circle only if it is asked about one. -/
def SolveHandler.MakesNoCircle (handler : SolveHandler) : Prop :=
  ∀ failure e failure', ((handler failure).run e).1 = .error failure' → failure.error.IsNoCircle →
    failure'.error.IsNoCircle

theorem SolveHandler.makesNoCircle_lenient : SolveHandler.lenient.MakesNoCircle := by
  rintro failure e failure' ⟨⟩

theorem SolveHandler.makesNoCircle_strict : SolveHandler.strict.MakesNoCircle := by
  rintro failure e _ ⟨⟩ h
  exact h

/-- No circle is passed on where none is made. -/
theorem PassesOn.isNoCircle {expressions : Value} {e : Ensemble} {failure : Failure}
    (h : PassesOn library setting n handler expressions e failure)
    (hlibrary : library.FailsOnly Error.IsNoCircle)
    (hsheet : ∀ name, setting.sheet.FailsOnly Error.IsNoCircle name)
    (hhandler : handler.MakesNoCircle) : failure.error.IsNoCircle := by
  obtain ⟨q, w, e', fault, -, hfault, hcomes⟩ := h
  have hno : fault.IsNoCircle := failsOnly_evaluateOne hlibrary hsheet n n w q.data e' fault hfault
  rw [ComesFrom] at hcomes
  split at hcomes
  · obtain ⟨name, e₁, hanswer⟩ := hcomes
    exact hhandler _ e₁ _ hanswer hno
  · rw [hcomes]
    exact hno

/-! ### The whole solve -/

variable {expressions : Value} {named : List Named} {fault : Option Error} {e : Ensemble}
  (hnamed : namedExpressions (e.calculator n).bindings expressions = .ok (named, fault))

include hnamed

/-- A solve puts its expressions in an order first, and then evaluates them. -/
theorem run_solveFlat_eq {outcome : Except Error (List String)} {c : Calculator}
    (horder : (solveOrder setting named fault).run (e.calculator n) = (outcome, c)) :
    (solveFlat library setting n handler expressions).run e =
      match outcome with
      | .error circle => (.error ⟨circle, none⟩, e.put n c)
      | .ok order =>
        let (result, after) := (solveNames (evaluateEach library setting n) handler n named .none
          order).run (e.put n c.attached)
        (result.map (named, ·), (e.put n c).released after n) := by
  rw [solveFlat, Stateful.run_bind, Stateful.run_get]
  simp only [Stateful.run_bind, Stateful.run_ofExcept, run_toSolve_onOne, hnamed, horder,
    Except.mapError]
  rcases outcome with circle | order
  · rfl
  · simp only [run_holding, calculator_put_self, put_put]
    rcases (solveNames (evaluateEach library setting n) handler n named .none order).run
      (e.put n c.attached) with ⟨failure | p, e'⟩
    · rfl
    · rfl

/-- **Without an order nothing is evaluated**: whatever the handler, the solve fails for want of an
order, and all that it did is to read. -/
theorem exists_run_solve_of_orderOf (library : Library) {circle : Error}
    (horder : (e.calculator n).orderOf setting named fault = .error circle) :
    ∃ e', Learnt setting n e e' ∧ ∀ handler,
      (solve library setting n handler expressions).run e = (.error ⟨circle, none⟩, e') ∧
      ∀ q w e₁, ¬ SolveVisits library setting n handler expressions e q w e₁ := by
  obtain ⟨c, hrun, hlearnt⟩ := Calculator.run_solveOrder setting named fault (e.calculator n)
  rw [horder] at hrun
  refine ⟨e.put n c, learnt_put hlearnt, fun handler => ⟨?_, ?_⟩⟩
  · rw [solve, Stateful.run_bind, Stateful.run_get]
    simp only [Stateful.run_bind, run_solveFlat_eq hnamed hrun]
  · rintro q w e₁ ⟨named', fault', order, c', hnamed', hrun', -⟩
    obtain ⟨rfl, rfl⟩ := Prod.mk.inj (Except.ok.inj (hnamed.symm.trans hnamed'))
    cases hrun.symm.trans hrun'

/-- **With an order a solve fails with an expression that it evaluates.** -/
theorem passesOn_of_run_solve {order : List String}
    (horder : (e.calculator n).orderOf setting named fault = .ok order) {failure : Failure}
    {e' : Ensemble}
    (h : (solve library setting n handler expressions).run e = (.error failure, e')) :
    PassesOn library setting n handler expressions e failure := by
  obtain ⟨c, hrun, -⟩ := Calculator.run_solveOrder setting named fault (e.calculator n)
  rw [horder] at hrun
  have hflat : (solveFlat library setting n handler expressions).run e = _ :=
    run_solveFlat_eq hnamed hrun
  simp only at hflat
  rcases hsolve : (solveNames (evaluateEach library setting n) handler n named .none order).run
    (e.put n c.attached) with ⟨other | p, e₁⟩
  · rw [hsolve] at hflat
    rw [run_solve_of_error hflat] at h
    obtain rfl := Except.error.inj (Prod.mk.inj h).1
    obtain ⟨q, w, e₂, caught, hvisits, hcaught⟩ := exists_visits_of_run_solveNames hsolve
    exact ⟨q, w, e₂, caught, ⟨named, fault, order, c, hnamed, hrun, hvisits⟩, hcaught⟩
  · rw [hsolve] at hflat
    rw [run_solve_of_run_solveFlat hflat rfl] at h
    cases h

end Ensemble

end Formulary
