import Formulary.Proofs.Calculator.Correspondence
import Formulary.Proofs.Calculator.Reading

/-!
# Coupled computations

Two computations are coupled by a relation of their states if from related states they answer the
same and end in related states (`Couples`). What an evaluation does to an ensemble is made of few
steps: it binds names for a while or for good, numbers calls, takes notes, forgets texts, and finds
trees, from which calculators learn. So a relation of ensembles that goes on over these steps
(`Ensemble.Coupling`) couples all evaluations, however deep they are nested
(`Ensemble.Coupling.evaluate`). The induction is over how
deep calls of routines may be nested. Bulk solves are coupled as well if the relation goes on over
writes into objects (`Ensemble.Coupling.solve`).

A relation need not go on over finding trees of all texts. Then evaluations are coupled that come to
no other texts, neither by themselves nor through a routine (`Library.EvaluatesOnly`).

A relation may compare two ensembles of which one has less in its caches, say. If it is equality
together with a property of the one ensemble, then coupling means that no evaluation ends the
property (`Ensemble.coupling_of_invariant`, `Couples.of_invariant`).
-/

namespace Formulary

/-- Whether two computations are coupled by a relation of their states: from related states both
answer the same, and they end in related states. -/
def Couples {σ τ ε α : Type} (R : σ → τ → Prop) (x : ExceptT ε (StateM σ) α)
    (y : ExceptT ε (StateM τ) α) : Prop :=
  ∀ s t, R s t → (y.run t).1 = (x.run s).1 ∧ R (x.run s).2 (y.run t).2

namespace Couples

variable {σ τ ε α β : Type} {R : σ → τ → Prop}

theorem pure (a : α) : Couples R (Pure.pure a : ExceptT ε (StateM σ) α)
    (Pure.pure a : ExceptT ε (StateM τ) α) := fun _ _ h => ⟨rfl, h⟩

theorem throw (e : ε) : Couples R (MonadExcept.throw e : ExceptT ε (StateM σ) α)
    (MonadExcept.throw e : ExceptT ε (StateM τ) α) := fun _ _ h => ⟨rfl, h⟩

theorem ofExcept (result : Except ε α) :
    Couples R (MonadExcept.ofExcept result : ExceptT ε (StateM σ) α)
      (MonadExcept.ofExcept result : ExceptT ε (StateM τ) α) := fun s t h => by
  rw [Stateful.run_ofExcept, Stateful.run_ofExcept]
  exact ⟨rfl, h⟩

theorem bind {x : ExceptT ε (StateM σ) α} {y : ExceptT ε (StateM τ) α}
    {f : α → ExceptT ε (StateM σ) β} {g : α → ExceptT ε (StateM τ) β} (hx : Couples R x y)
    (hf : ∀ a, Couples R (f a) (g a)) : Couples R (x >>= f) (y >>= g) := by
  intro s t h
  obtain ⟨houtcome, hafter⟩ := hx s t h
  rw [Stateful.run_bind, Stateful.run_bind]
  rcases hxs : x.run s with ⟨outcome, s'⟩
  rcases hyt : y.run t with ⟨outcome', t'⟩
  rw [hxs, hyt] at houtcome hafter
  obtain rfl : outcome' = outcome := houtcome
  rcases outcome' with e | a
  · exact ⟨rfl, hafter⟩
  · exact hf a s' t' hafter

theorem get {f : σ → ExceptT ε (StateM σ) α} {g : τ → ExceptT ε (StateM τ) α}
    (h : ∀ s t, R s t → Couples R (f s) (g t)) :
    Couples R (do f (← MonadState.get)) (do g (← MonadState.get)) :=
  fun s t hst => h s t hst s t hst

theorem tryCatch {x : ExceptT ε (StateM σ) α} {y : ExceptT ε (StateM τ) α}
    {handle : ε → ExceptT ε (StateM σ) α} {handle' : ε → ExceptT ε (StateM τ) α}
    (hx : Couples R x y) (hhandle : ∀ e, Couples R (handle e) (handle' e)) :
    Couples R (MonadExcept.tryCatch x handle) (MonadExcept.tryCatch y handle') := by
  intro s t h
  obtain ⟨houtcome, hafter⟩ := hx s t h
  rw [Stateful.run_tryCatch, Stateful.run_tryCatch]
  rcases hxs : x.run s with ⟨outcome, s'⟩
  rcases hyt : y.run t with ⟨outcome', t'⟩
  rw [hxs, hyt] at houtcome hafter
  obtain rfl : outcome' = outcome := houtcome
  rcases outcome' with e | a
  · exact hhandle e s' t' hafter
  · exact ⟨rfl, hafter⟩

theorem ite {c : Prop} [Decidable c] {x x' : ExceptT ε (StateM σ) α}
    {y y' : ExceptT ε (StateM τ) α} (h : Couples R x y) (h' : Couples R x' y') :
    Couples R (if c then x else x') (if c then y else y') := by
  split
  · exact h
  · exact h'

/-- Coupling as a correspondence. -/
def correspondence (R : σ → τ → Prop) : Correspondence (Stateful σ) (Stateful τ) where
  rel := Couples R
  pure := pure
  throw := throw
  bind := bind

/-- A computation that is coupled with itself by a property of equal states keeps the property. -/
theorem of_invariant {P : σ → Prop} {x : ExceptT ε (StateM σ) α}
    (h : Couples (fun s t => t = s ∧ P s) x x) {s : σ} (hs : P s) : P (x.run s).2 :=
  (h s s ⟨rfl, hs⟩).2.2

end Couples

/-! ### Texts that are evaluated -/

section

variable (A : String → Prop)

/-- Whether the texts among the single expressions of a nested list are in a set. -/
def Value.EvaluatesOnly (v : Value) : Prop := ∀ w ∈ v.singles, ∀ text, w.text? = some text → A text

/-- Whether an action evaluates texts of a set only. -/
def Action.EvaluatesOnly : Action → Prop
  | .evaluate expression _ | .evaluateStrict expression _ => expression.EvaluatesOnly A
  | .read _ | .look _ | .store .. | .storeAll _ | .clear | .clearCache _ | .readNotes | .note _ =>
    True

/-- Whether a script evaluates texts of a set only, whatever its actions come to. -/
def Script.EvaluatesOnly : Script → Prop
  | .done _ => True
  | .act action next => action.EvaluatesOnly A ∧ ∀ outcome, (next outcome).EvaluatesOnly

/-- Whether all routines of a library evaluate texts of a set only. -/
def Library.EvaluatesOnly (library : Library) : Prop :=
  ∀ key routine, library key = some routine → ∀ args, (routine.run args).EvaluatesOnly A

end

theorem Script.evaluatesOnly_of_forall {A : String → Prop} (h : ∀ text, A text) (script : Script) :
    script.EvaluatesOnly A := by
  induction script with
  | done result => exact trivial
  | act action next ih =>
    refine ⟨?_, ih⟩
    cases action with
    | evaluate | evaluateStrict => exact fun w _ text _ => h text
    | _ => exact trivial

theorem Library.evaluatesOnly_of_forall {A : String → Prop} (h : ∀ text, A text)
    (library : Library) : library.EvaluatesOnly A :=
  fun _ routine _ args => (routine.run args).evaluatesOnly_of_forall h

namespace Ensemble

/-! ### Steps of an evaluation -/

/-- The ensemble with other bindings for the calculator of a number, and with what a running
evaluation reads on it. -/
def rebound (e : Ensemble) (n : Nat) (b : Bindings) (detached : Option Memory) : Ensemble :=
  e.put n { e.calculator n with bindings := b, detached := detached }

/-- The ensemble with texts forgotten by the calculator of a number. -/
def forgetful (e : Ensemble) (n : Nat) (forgets : String → Bool) : Ensemble :=
  e.put n { e.calculator n with cache := (e.calculator n).cache.forget forgets }

/-- The ensemble with other notes, and another number for the next call. -/
def beside (e : Ensemble) (calls : Nat) (notes : List String) : Ensemble :=
  { e with calls := calls, notes := notes }

/-- A computation on one calculator does its parts one after the other. -/
theorem onOne_bind {α β : Type} (n : Nat) (x : Calculator.Run α) (f : α → Calculator.Run β) :
    onOne n (x >>= f) = onOne n x >>= fun a => onOne n (f a) := by
  refine ExceptT.ext (StateT.ext fun e => ?_)
  show (onOne n (x >>= f)).run e = (onOne n x >>= fun a => onOne n (f a)).run e
  rw [Stateful.run_bind]
  simp only [onOne, ExceptT.run_mk, Stateful.run_bind]
  rcases x.run (e.calculator n) with ⟨fault | a, c⟩
  · rfl
  · simp only [calculator_put_self, put_put]

/-- Data may be bound by the computation on the one calculator or around it. -/
theorem run_onOne_withData {α : Type} (n : Nat) {data : Value} {entries : Mapping}
    (h : (Calculator.dataOf data).entries? = some entries) (x : Calculator.Run α) (e : Ensemble) :
    (onOne n (Calculator.withData data x)).run e = (withData n data (onOne n x)).run e := by
  simp only [onOne, withData, Calculator.withData, ExceptT.run_mk,
    Calculator.openData_of_entries? _ h, calculator_put_self]
  rcases x.run ((e.calculator n).opened entries) with ⟨outcome, after⟩
  simp only [calculator_put_self, put_put]

theorem couples_runScript {A : String → Prop} {R : Ensemble → Ensemble → Prop}
    {perform perform' : Action → Run Value}
    (hperform : ∀ {action : Action}, action.EvaluatesOnly A →
      Couples R (perform action) (perform' action))
    {script : Script} (hscript : script.EvaluatesOnly A) :
    Couples R (runScript perform script) (runScript perform' script) := by
  induction script with
  | done result => exact .ofExcept result
  | act action next ih =>
    rw [runScript, runScript]
    refine .bind (.tryCatch ?_ fun fault => .pure _) fun outcome => ih outcome (hscript.2 outcome)
    exact .bind (hperform hscript.1) fun v => .pure _

/-- Whether a relation of ensembles, under two settings with one spreadsheet library, tells of what
the steps of an evaluation depend on, and goes on over the steps of all evaluations that come to
texts of a set only. -/
structure Coupling (A : String → Prop) (setting setting' : Setting)
    (R : Ensemble → Ensemble → Prop) : Prop where
  sheet : setting'.sheet = setting.sheet
  bindings : ∀ {e e'}, R e e' → ∀ n, (e'.calculator n).bindings = (e.calculator n).bindings
  detached : ∀ {e e'}, R e e' → ∀ n, (e'.calculator n).detached = (e.calculator n).detached
  holds : ∀ {e e'}, R e e' → ∀ number, e'.holdsCallFrom number = e.holdsCallFrom number
  step : ∀ {e e'}, R e e' → e'.step = e.step
  calls : ∀ {e e'}, R e e' → e'.calls = e.calls
  notes : ∀ {e e'}, R e e' → e'.notes = e.notes
  beside : ∀ {e e'}, R e e' → ∀ calls notes, R (e.beside calls notes) (e'.beside calls notes)
  rebound : ∀ {e e'}, R e e' → ∀ n {b : Bindings} (detached : Option Memory),
    b.caseSensitive = (e.calculator n).bindings.caseSensitive →
      b.ignoreNested = (e.calculator n).bindings.ignoreNested →
        R (e.rebound n b detached) (e'.rebound n b detached)
  forgetful : ∀ {e e'}, R e e' → ∀ n forgets, R (e.forgetful n forgets) (e'.forgetful n forgets)
  resolve : ∀ n {expression : Value}, (∀ text, expression.text? = some text → A text) →
    Couples R (onOne n (Calculator.resolve setting expression))
      (onOne n (Calculator.resolve setting' expression))

/-- An ensemble is coupled with itself. -/
theorem coupling_eq (setting : Setting) :
    Coupling (fun _ => True) setting setting (fun e e' => e' = e) where
  sheet := rfl
  bindings := by
    rintro e - rfl n
    rfl
  detached := by
    rintro e - rfl n
    rfl
  holds := by
    rintro e - rfl number
    rfl
  step := by
    rintro e - rfl
    rfl
  calls := by
    rintro e - rfl
    rfl
  notes := by
    rintro e - rfl
    rfl
  beside := by
    rintro e - rfl calls notes
    rfl
  rebound := by
    rintro e - rfl n b detached - -
    rfl
  forgetful := by
    rintro e - rfl n forgets
    rfl
  resolve n expression _ := by
    rintro e - rfl
    exact ⟨rfl, rfl⟩

/-- To a coupling an invariant of what the steps of an evaluation do may be added. -/
theorem Coupling.withInvariant {A : String → Prop} {setting setting' : Setting}
    {R : Ensemble → Ensemble → Prop} (h : Coupling A setting setting' R) {P : Ensemble → Prop}
    (hbeside : ∀ {e : Ensemble}, P e → ∀ calls notes, P (e.beside calls notes))
    (hrebound : ∀ {e : Ensemble}, P e → ∀ n {b : Bindings} (detached : Option Memory),
      b.caseSensitive = (e.calculator n).bindings.caseSensitive →
        b.ignoreNested = (e.calculator n).bindings.ignoreNested → P (e.rebound n b detached))
    (hforgetful : ∀ {e : Ensemble}, P e → ∀ n forgets, P (e.forgetful n forgets))
    (hresolve : ∀ {e : Ensemble}, P e → ∀ n expression,
      P ((onOne n (Calculator.resolve setting expression)).run e).2) :
    Coupling A setting setting' (fun e e' => R e e' ∧ P e) where
  sheet := h.sheet
  bindings he := h.bindings he.1
  detached he := h.detached he.1
  holds he := h.holds he.1
  step he := h.step he.1
  calls he := h.calls he.1
  notes he := h.notes he.1
  beside he calls notes := ⟨h.beside he.1 calls notes, hbeside he.2 calls notes⟩
  rebound he n _ detached hcase hflat :=
    ⟨h.rebound he.1 n detached hcase hflat, hrebound he.2 n detached hcase hflat⟩
  forgetful he n forgets := ⟨h.forgetful he.1 n forgets, hforgetful he.2 n forgets⟩
  resolve n expression hexpression e e' he := by
    obtain ⟨houtcome, hafter⟩ := h.resolve n hexpression e e' he.1
    exact ⟨houtcome, hafter, hresolve he.2 n expression⟩

/-- An invariant of what the steps of an evaluation do couples an ensemble with itself. -/
theorem coupling_of_invariant {setting : Setting} {P : Ensemble → Prop}
    (hbeside : ∀ {e : Ensemble}, P e → ∀ calls notes, P (e.beside calls notes))
    (hrebound : ∀ {e : Ensemble}, P e → ∀ n {b : Bindings} (detached : Option Memory),
      b.caseSensitive = (e.calculator n).bindings.caseSensitive →
        b.ignoreNested = (e.calculator n).bindings.ignoreNested → P (e.rebound n b detached))
    (hforgetful : ∀ {e : Ensemble}, P e → ∀ n forgets, P (e.forgetful n forgets))
    (hresolve : ∀ {e : Ensemble}, P e → ∀ n expression,
      P ((onOne n (Calculator.resolve setting expression)).run e).2) :
    Coupling (fun _ => True) setting setting (fun e e' => e' = e ∧ P e) :=
  (coupling_eq setting).withInvariant hbeside hrebound hforgetful hresolve

namespace Coupling

variable {A : String → Prop} {setting setting' : Setting} {R : Ensemble → Ensemble → Prop} {n : Nat}
  {e e' : Ensemble}

theorem memory (h : Coupling A setting setting' R) (he : R e e') (n : Nat) :
    (e'.calculator n).memory = (e.calculator n).memory := by
  rw [Calculator.memory, h.bindings he]
  rfl

theorem view (h : Coupling A setting setting' R) (he : R e e') (n : Nat) :
    (e'.calculator n).view = (e.calculator n).view := by
  rw [Calculator.view, h.detached he, h.memory he]
  rfl

theorem renumbered (h : Coupling A setting setting' R) (he : R e e') (calls : Nat) :
    R { e with calls := calls } { e' with calls := calls } := by
  have hbeside := h.beside he calls e.notes
  nth_rewrite 2 [← h.notes he] at hbeside
  exact hbeside

/-- A change of bindings that does not concern how keys become names. -/
theorem onOne_rebind (h : Coupling A setting setting' R) {α : Type} {x y : Calculator.Run α}
    (hxy : ∀ {e e'}, R e e' → ∃ (outcome : Except Error α) (b : Bindings) (d : Option Memory),
      b.caseSensitive = (e.calculator n).bindings.caseSensitive ∧
        b.ignoreNested = (e.calculator n).bindings.ignoreNested ∧
        x.run (e.calculator n) = (outcome, { e.calculator n with bindings := b, detached := d }) ∧
        y.run (e'.calculator n) = (outcome, { e'.calculator n with bindings := b, detached := d })) :
    Couples R (onOne n x) (onOne n y) := by
  intro e e' he
  obtain ⟨outcome, b, d, hcase, hflat, hx, hy⟩ := hxy he
  simp only [onOne, ExceptT.run_mk, hx, hy]
  exact ⟨trivial, h.rebound he n d hcase hflat⟩

theorem withData (h : Coupling A setting setting' R) {α : Type} {x y : Run α} (hxy : Couples R x y)
    (n : Nat) (data : Value) : Couples R (withData n data x) (withData n data y) := by
  intro e e' he
  simp only [Ensemble.withData, ExceptT.run_mk, Calculator.openData_eq]
  rcases (Calculator.dataOf data).entries? with - | entries
  · exact ⟨rfl, he⟩
  -- opening puts the same bindings in force on both sides
  · have hopen : R (e.put n ((e.calculator n).opened entries))
        (e'.put n ((e'.calculator n).opened entries)) := by
      have hrebound := h.rebound he n (b := (e.calculator n).bindings.writeAll entries) none rfl rfl
      rw [Calculator.opened, Calculator.opened, h.bindings he]
      exact hrebound
    obtain ⟨houtcome, hafter⟩ := hxy _ _ hopen
    rcases hx : x.run (e.put n ((e.calculator n).opened entries)) with ⟨outcome, after⟩
    rcases hy : y.run (e'.put n ((e'.calculator n).opened entries)) with ⟨outcome', after'⟩
    rw [hx, hy] at houtcome hafter
    -- leaving puts back bindings that are the same on both sides, since those inside are
    have hclose := h.rebound hafter n (b := Bindings.leave (e.calculator n).bindings
      (after.calculator n).bindings) (e.calculator n).detached rfl rfl
    simp only [hx, hy]
    refine ⟨houtcome, ?_⟩
    rw [Calculator.closeData, Calculator.closeData, h.bindings he, h.detached he,
      h.bindings hafter]
    exact hclose

/-- With other data that bind the same. -/
theorem withData_of_openData (h : Coupling A setting setting' R) {α : Type} {x y : Run α}
    (hxy : Couples R x y) (n : Nat) {data data' : Value} (hopen : ∀ {e e'}, R e e' →
      (e'.calculator n).openData data' = (e'.calculator n).openData data) :
    Couples R (Ensemble.withData n data x) (Ensemble.withData n data' y) := by
  intro e e' he
  have hsame := h.withData hxy n data e e' he
  simp only [Ensemble.withData, ExceptT.run_mk, ← hopen he] at hsame ⊢
  exact hsame

theorem isolated (h : Coupling A setting setting' R) {leave : Nat → Nat → Value → Value}
    {x y : Run Value} (hxy : Couples R x y) :
    Couples R (isolated leave x) (isolated leave y) := by
  intro e e' he
  obtain ⟨houtcome, hafter⟩ := hxy e e' he
  rcases hx : x.run e with ⟨outcome, after⟩
  rcases hy : y.run e' with ⟨outcome', after'⟩
  rw [hx, hy] at houtcome hafter
  obtain rfl : outcome' = outcome := houtcome
  have hcalls : after'.calls = after.calls := h.calls hafter
  have hholds : after'.holdsCallFrom e.calls = after.holdsCallFrom e.calls := h.holds hafter e.calls
  simp only [Ensemble.isolated, ExceptT.run_mk, hx, hy, h.calls he, h.step he, hcalls, hholds]
  split
  · exact ⟨rfl, hafter⟩
  · exact ⟨rfl, h.renumbered hafter e.calls⟩

theorem identified (h : Coupling A setting setting' R) (args : List Value) :
    Couples R (identified args) (identified args) := by
  intro e e' he
  have hnumbered := h.renumbered he (e.calls + 1)
  refine ⟨?_, ?_⟩
  · show Except.ok (Value.allIdentified (.call e'.step e'.calls) args) =
      Except.ok (Value.allIdentified (.call e.step e.calls) args)
    rw [h.step he, h.calls he]
  · show R { e with calls := e.calls + 1 } { e' with calls := e'.calls + 1 }
    rw [h.calls he]
    exact hnumbered

/-! ### Single expressions -/

section

variable {call call' : Function → List Value → Run Value}

theorem evalWithin (h : Coupling A setting setting' R)
    (hcall : ∀ f args, Couples R (call f args) (call' f args)) (n depth : Nat) (tree : Expr) :
    Couples R (tree.evalWithin (surroundings call n) depth)
      (tree.evalWithin (surroundings call' n) depth) := by
  have hlookup : ∀ name, Couples R ((surroundings call n).lookup name)
      ((surroundings call' n).lookup name) := fun name => .get fun e e' he => by
    rw [h.view he]
    exact .pure _
  refine Expr.evalWithin_rel (Couples.correspondence R) (surroundings call n)
    (surroundings call' n) (fun _ => True) ?_ ?_ (fun _ f _ args => hcall f args) depth trivial
  · intro formula formula' key
    rw [evalBy_keyed, evalBy_keyed]
    exact .throw _
  · intro formula formula' tree _ hformula name _
    rw [Expr.evalBy, Expr.evalBy]
    refine .bind (hlookup name) fun found => ?_
    rcases found with - | v
    · exact .throw _
    · exact (Couples.correspondence R).followed fun tree' _ => hformula tree' trivial

/-- Two expressions with two data are coupled if trees are found for them alike, and the data bind
the same. -/
theorem evaluateOne_of_resolve (h : Coupling A setting setting' R)
    (hcall : ∀ f args, Couples R (call f args) (call' f args)) (n : Nat)
    {expression expression' data data' : Value}
    (hresolve : Couples R (Ensemble.onOne n (Calculator.resolve setting expression))
      (Ensemble.onOne n (Calculator.resolve setting' expression')))
    (hopen : ∀ {e e'}, R e e' →
      (e'.calculator n).openData data' = (e'.calculator n).openData data) :
    Couples R (Ensemble.evaluateOne setting call n expression data)
      (Ensemble.evaluateOne setting' call' n expression' data') := by
  refine h.withData_of_openData (.bind hresolve fun tree => .get fun e e' he => ?_) n hopen
  have hrun := h.evalWithin hcall n formulaLimit tree
  simp only [h.memory he]
  exact .ite (.bind (.throw _) fun _ => hrun) hrun

theorem evaluateOne (h : Coupling A setting setting' R)
    (hcall : ∀ f args, Couples R (call f args) (call' f args)) (n : Nat) {expression : Value}
    (hexpression : ∀ text, expression.text? = some text → A text) (data : Value) :
    Couples R (evaluateOne setting call n expression data)
      (evaluateOne setting' call' n expression data) :=
  h.evaluateOne_of_resolve hcall n (h.resolve n hexpression) fun _ => rfl

/-- Handlers that answer alike keep a coupling. -/
theorem orHandled {x y : Run Value} (hxy : Couples R x y) {handler handler' : Handler}
    {expression expression' : Value}
    (hhandler : ∀ fault, handler' expression' fault = handler expression fault) :
    Couples R
      (tryCatch x fun e =>
        if e.IsForgivable then MonadExcept.ofExcept (handler expression e) else throw e)
      (tryCatch y fun e =>
        if e.IsForgivable then MonadExcept.ofExcept (handler' expression' e) else throw e) := by
  refine .tryCatch hxy fun fault => ?_
  rw [hhandler]
  split
  · exact .ofExcept _
  · exact .throw fault

theorem evaluateOneOr (h : Coupling A setting setting' R)
    (hcall : ∀ f args, Couples R (call f args) (call' f args)) (n : Nat) (handler : Handler)
    {expression : Value} (hexpression : ∀ text, expression.text? = some text → A text)
    (data : Value) : Couples R (evaluateOneOr setting call n handler expression data)
      (evaluateOneOr setting' call' n handler expression data) :=
  orHandled (h.evaluateOne hcall n hexpression data) fun _ => rfl

end

/-! ### Routines -/

theorem perform (h : Coupling A setting setting' R)
    {evaluate evaluate' strict strict' : Value → Value → Run Value}
    (hevaluate : ∀ {v : Value}, v.EvaluatesOnly A →
      ∀ data, Couples R (evaluate v data) (evaluate' v data))
    (hstrict : ∀ {v : Value}, v.EvaluatesOnly A →
      ∀ data, Couples R (strict v data) (strict' v data))
    (n : Nat) {action : Action} (haction : action.EvaluatesOnly A) :
    Couples R (perform n evaluate strict action) (perform n evaluate' strict' action) := by
  cases action with
  | read key =>
    refine .get fun e e' he => ?_
    rw [h.bindings he]
    rcases (e.calculator n).bindings.get? key with - | v
    · exact .throw _
    · exact .pure v
  | look name =>
    refine .get fun e e' he => ?_
    rw [h.view he]
    rcases Table.get? (e.calculator n).view name with - | v
    · exact .throw _
    · exact .pure v
  | store key value =>
    refine h.onOne_rebind fun {e e'} he => ⟨_, (e.calculator n).bindings.write key value,
      (e.calculator n).detached, rfl, rfl, rfl, ?_⟩
    rw [← h.bindings he, ← h.detached he]
    rfl
  | storeAll data =>
    refine h.onOne_rebind fun {e e'} he => ?_
    have hbindings : e'.calculator n = { e'.calculator n with
      bindings := (e.calculator n).bindings, detached := (e.calculator n).detached } := by
      rw [← h.bindings he, ← h.detached he]
    rw [hbindings]
    simp only [Stateful.run_bind, Stateful.run_get, Stateful.run_ofExcept, Bindings.store]
    rcases data.entries? with - | entries
    · exact ⟨_, (e.calculator n).bindings, (e.calculator n).detached, rfl, rfl, rfl, rfl⟩
    · exact ⟨_, (e.calculator n).bindings.writeAll entries, (e.calculator n).detached, rfl, rfl,
        rfl, rfl⟩
  | clear =>
    refine h.onOne_rebind fun {e e'} he => ⟨_, (e.calculator n).bindings.clear,
      some (e.calculator n).view, rfl, rfl, rfl, ?_⟩
    rw [← h.bindings he, ← h.view he]
    rfl
  | clearCache forgets => exact fun e e' he => ⟨rfl, h.forgetful he n forgets⟩
  | evaluate expression data => exact hevaluate haction data
  | evaluateStrict expression data => exact hstrict haction data
  | readNotes =>
    refine .get fun e e' he => ?_
    rw [h.notes he]
    exact .pure _
  | note text =>
    refine fun e e' he => ⟨rfl, ?_⟩
    have hbeside := h.beside he e.calls (e.notes ++ [text])
    nth_rewrite 2 [← h.notes he] at hbeside
    nth_rewrite 2 [← h.calls he] at hbeside
    exact hbeside

variable {library : Library}

/-- **Calls are coupled**, however deep the calls in them are nested. -/
theorem callWithin (h : Coupling A setting setting' R) (hlibrary : library.EvaluatesOnly A)
    (depth n : Nat) (f : Function) (args : List Value) :
    Couples R (callWithin library setting depth n f args)
      (callWithin library setting' depth n f args) := by
  induction depth generalizing n f args with
  | zero =>
    rw [Ensemble.callWithin.eq_def, Ensemble.callWithin.eq_def]
    rcases hbody : f.body with b | name | ⟨key, target⟩ <;> simp only [hbody, h.sheet]
    · exact .ofExcept _
    · exact .ofExcept _
    · split
      · rcases library key with - | r
        · exact .throw _
        · exact .throw _
      · exact .throw _
  | succ depth ih =>
    rw [Ensemble.callWithin.eq_def, Ensemble.callWithin.eq_def]
    rcases hbody : f.body with b | name | ⟨key, target⟩ <;> simp only [hbody, h.sheet]
    · exact .ofExcept _
    · exact .ofExcept _
    · split
      · rcases hr : library key with - | r
        · exact .throw _
        · -- what the routine evaluates calls less deep
          refine .bind (h.identified args) fun args => ?_
          refine couples_runScript (fun haction => h.perform ?_ ?_ _ haction) (hlibrary key r hr args)
          · exact fun hv data => forEach_rel (Couples.correspondence R) _ _ _ fun w hw =>
              h.evaluateOneOr (ih _) _ _ (hv w hw) _
          · exact fun hv data => forEach_rel (Couples.correspondence R) _ _ _ fun w hw =>
              h.evaluateOne (ih _) _ (hv w hw) _
      · exact .throw _

theorem call (h : Coupling A setting setting' R) (hlibrary : library.EvaluatesOnly A) (n : Nat)
    (f : Function) (args : List Value) :
    Couples R (call library setting n f args) (call library setting' n f args) :=
  h.callWithin hlibrary reentryLimit n f args

/-! ### Evaluations -/

section

variable (hlibrary : library.EvaluatesOnly A) {expression : Value}
  (hexpression : expression.EvaluatesOnly A)

include hlibrary hexpression

theorem evaluateEach (h : Coupling A setting setting' R) (n : Nat) (data : Value) :
    Couples R (evaluateEach library setting n expression data)
      (evaluateEach library setting' n expression data) :=
  forEach_rel (Couples.correspondence R) _ _ expression fun v hv =>
    h.evaluateOne (h.call hlibrary n) n (hexpression v hv) data

/-- **Strict evaluations are coupled.** -/
theorem evaluateStrict (h : Coupling A setting setting' R) (n : Nat) (data : Value) :
    Couples R (evaluateStrict library setting n expression data)
      (evaluateStrict library setting' n expression data) :=
  forEach_rel (Couples.correspondence R) _ _ expression fun v hv =>
    h.isolated (h.evaluateOne (h.call hlibrary n) n (hexpression v hv) data)

/-- **Evaluations are coupled**, whatever answers for their failures. -/
theorem evaluate (h : Coupling A setting setting' R) (n : Nat) (handler : Handler) (data : Value) :
    Couples R (evaluate library setting n handler expression data)
      (evaluate library setting' n handler expression data) :=
  forEach_rel (Couples.correspondence R) _ _ expression fun v hv =>
    h.isolated (h.evaluateOneOr (h.call hlibrary n) n handler (hexpression v hv) data)

end

/-! ### Reading on one calculator -/

/-- What is done on one calculator as a correspondence. -/
def onOne (h : Coupling A setting setting' R) (n : Nat) :
    Correspondence Calculator.Run Calculator.Run where
  rel x y := Couples R (Ensemble.onOne n x) (Ensemble.onOne n y)
  pure a := h.onOne_rebind fun {e e'} he => ⟨.ok a, (e.calculator n).bindings,
    (e.calculator n).detached, rfl, rfl, rfl, by rw [← h.bindings he, ← h.detached he]; rfl⟩
  throw fault := h.onOne_rebind fun {e e'} he => ⟨.error fault, (e.calculator n).bindings,
    (e.calculator n).detached, rfl, rfl, rfl, by rw [← h.bindings he, ← h.detached he]; rfl⟩
  bind hx hf := by
    rw [onOne_bind, onOne_bind]
    exact .bind hx hf

section

variable (hall : ∀ text, A text)
include hall

theorem dependenciesOfOne (h : Coupling A setting setting' R) (n : Nat) (expression data : Value) :
    (h.onOne n).rel (Calculator.dependenciesOfOne setting expression data)
      (Calculator.dependenciesOfOne setting' expression data) := by
  rcases hentries : (Calculator.dataOf data).entries? with - | entries
  · refine h.onOne_rebind fun {e e'} he => ⟨.error (.notMapping (Calculator.dataOf data).shown),
      (e.calculator n).bindings, (e.calculator n).detached, rfl, rfl, ?_, ?_⟩
    · simp only [Calculator.dependenciesOfOne, Calculator.withData, ExceptT.run_mk,
        Calculator.openData_eq, hentries]
    · simp only [Calculator.dependenciesOfOne, Calculator.withData, ExceptT.run_mk,
        Calculator.openData_eq, hentries, ← h.bindings he, ← h.detached he]
  · have hread : (h.onOne n).rel
        (do
          let tree ← Calculator.resolve setting expression
          MonadExcept.ofExcept (tree.freeNamesIn (← get).memory))
        (do
          let tree ← Calculator.resolve setting' expression
          MonadExcept.ofExcept (tree.freeNamesIn (← get).memory)) := by
      refine (h.onOne n).bind (h.resolve n fun text _ => hall text) fun tree =>
        h.onOne_rebind fun {e e'} he => ⟨tree.freeNamesIn (e.calculator n).memory,
          (e.calculator n).bindings, (e.calculator n).detached, rfl, rfl, ?_, ?_⟩
      · rw [Stateful.run_bind]
        exact Stateful.run_ofExcept _ _
      · rw [← h.bindings he, ← h.detached he, ← h.memory he, Stateful.run_bind]
        exact Stateful.run_ofExcept _ _
    intro e e' he
    rw [Calculator.dependenciesOfOne, Calculator.dependenciesOfOne, run_onOne_withData n hentries,
      run_onOne_withData n hentries]
    exact h.withData hread n data e e' he

theorem dependencies (h : Coupling A setting setting' R) (n : Nat) (data expression : Value) :
    (h.onOne n).rel (Calculator.dependencies setting data expression)
      (Calculator.dependencies setting' data expression) :=
  Calculator.dependencies_rel (h.onOne n) setting setting'
    (fun v => h.dependenciesOfOne hall n v data) expression

/-! ### Solving -/

omit hall in
theorem toSolve {α : Type} {x y : Run α} (h : Couples R x y) : Couples R x.toSolve y.toSolve := by
  intro e e' he
  obtain ⟨houtcome, hafter⟩ := h e e' he
  refine ⟨?_, hafter⟩
  show (y.run e').1.mapError _ = (x.run e).1.mapError _
  rw [houtcome]

omit hall in
theorem holding (h : Coupling A setting setting' R) {α : Type} {x y : Solve α}
    (hxy : Couples R x y) (n : Nat) : Couples R (holding n x) (holding n y) := by
  intro e e' he
  -- the same is bound and read on both sides, before and after
  have hattached := h.rebound he n (b := (e.calculator n).bindings) none rfl rfl
  nth_rewrite 2 [← h.bindings he] at hattached
  obtain ⟨houtcome, hafter⟩ := hxy _ _ hattached
  refine ⟨houtcome, ?_⟩
  have hreleased := h.rebound hafter n (b := _) (e.calculator n).detached rfl rfl
  nth_rewrite 2 [← h.bindings hafter] at hreleased
  nth_rewrite 2 [← h.detached he] at hreleased
  exact hreleased

section

variable {handler : SolveHandler} (hhandler : ∀ failure, Couples R (handler failure) (handler failure))

include hhandler

theorem solveAnew (h : Coupling A setting setting' R) (n : Nat) (p : Progress) (x : Named) :
    Couples R (solveAnew (Ensemble.evaluateEach library setting n) handler p x)
      (solveAnew (Ensemble.evaluateEach library setting' n) handler p x) := by
  intro e e' he
  have heach : Couples R (Ensemble.evaluateEach library setting n x.expression p.data)
      (Ensemble.evaluateEach library setting' n x.expression p.data) :=
    h.evaluateEach (library.evaluatesOnly_of_forall hall) (fun _ _ text _ => hall text) n p.data
  have hisolated : Couples R (Ensemble.isolated (Value.settled (.result e.step x.name)) _)
      (Ensemble.isolated (Value.settled (.result e.step x.name)) _) := h.isolated heach
  obtain ⟨houtcome, hafter⟩ := hisolated e e' he
  simp only [Ensemble.solveAnew, ExceptT.run_mk, h.step he]
  rcases hx : (Ensemble.isolated (Value.settled (.result e.step x.name))
    (Ensemble.evaluateEach library setting n x.expression p.data)).run e with ⟨outcome, after⟩
  rcases hy : (Ensemble.isolated (Value.settled (.result e.step x.name))
    (Ensemble.evaluateEach library setting' n x.expression p.data)).run e' with ⟨outcome', after'⟩
  rw [hx, hy] at houtcome hafter
  obtain rfl : outcome' = outcome := houtcome
  rcases outcome' with fault | v
  · simp only
    split
    · exact Couples.bind (hhandler _) (fun v => .pure _) after after' hafter
    · exact ⟨rfl, hafter⟩
  · exact ⟨rfl, hafter⟩

theorem solveOne (h : Coupling A setting setting' R) (n : Nat) (p : Progress) (x : Named) :
    Couples R (solveOne (Ensemble.evaluateEach library setting n) handler n p x)
      (solveOne (Ensemble.evaluateEach library setting' n) handler n p x) := by
  refine .get fun e e' he => ?_
  rw [h.view he]
  split
  · exact .pure _
  · exact h.solveAnew hall hhandler n p x

theorem solveNames (h : Coupling A setting setting' R) (n : Nat) (named : List Named)
    (p : Progress) (order : List String) :
    Couples R (solveNames (Ensemble.evaluateEach library setting n) handler n named p order)
      (solveNames (Ensemble.evaluateEach library setting' n) handler n named p order) := by
  induction order generalizing p with
  | nil => exact .pure p
  | cons name rest ih =>
    rw [Ensemble.solveNames, Ensemble.solveNames]
    split
    · next x hx => exact .bind (h.solveOne hall hhandler n p x) fun q => ih q
    · exact ih p

theorem solveFlat (h : Coupling A setting setting' R) (n : Nat) (expressions : Value) :
    Couples R (solveFlat library setting n handler expressions)
      (solveFlat library setting' n handler expressions) := by
  refine .get fun e e' he => ?_
  simp only [h.bindings he]
  have horder := fun named fault => solveOrder_rel (h.onOne n) setting setting'
    (fun v => h.dependenciesOfOne hall n v .none) named fault
  refine .bind (.ofExcept _) fun found => .bind (toSolve (horder _ _)) fun order => ?_
  exact .bind (h.holding (h.solveNames hall hhandler n _ _ order) n) fun p => .pure _

/-- **Bulk solves are coupled** if what their handlers do is, and if writes into objects keep
ensembles related. -/
theorem solve (h : Coupling A setting setting' R)
    (hwrites : ∀ {e e'}, R e e' → ∀ writes, R (e.receiveAll writes) (e'.receiveAll writes))
    (n : Nat) (expressions : Value) :
    Couples R (solve library setting n handler expressions)
      (solve library setting' n handler expressions) := by
  refine .get fun e e' he => ?_
  simp only [h.bindings he]
  refine .bind (h.solveFlat hall hhandler n expressions) fun found => ?_
  refine .get fun e₁ e₁' he₁ => ?_
  simp only [h.step he₁]
  exact .bind (fun e₂ e₂' he₂ => ⟨rfl, hwrites he₂ _⟩) fun _ => .pure _

end

end

end Coupling

theorem couples_quiet {R : Ensemble → Ensemble → Prop} (answers : Answers) (failure : Failure) :
    Couples R (SolveHandler.quiet answers failure) (SolveHandler.quiet answers failure) :=
  .ofExcept _

end Ensemble

end Formulary
