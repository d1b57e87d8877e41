import Formulary.Calculator.Evaluation
import Formulary.Proofs.Calculator.Reading

/-!
# Evaluations that act on no calculator

A function is passive if no routine stands behind it, or one that computes its result without
acting on a calculator. A tree that calls only passive functions is worth what its memory says: all
that an evaluation changes is the cache of the calculator and the number of the next call. So the
evaluation follows a computation on that number alone (`Calculator.valueOf`), which depends on the
calculator as it was at the start.

The relation between the two is `Follows`; it goes on from step to step, so the walk over a tree and
over a list of expressions preserve it. Main result: `follows_evaluateEach`.
-/

namespace Formulary

/-! ### Passive functions -/

/-- Whether a routine computes its result without acting on a calculator. -/
def Routine.IsPassive (r : Routine) : Prop := ∀ args, ∃ result, r.run args = .done result

/-- Whether what a function runs acts on no calculator. -/
def Function.IsPassive (library : Library) (f : Function) : Prop :=
  ∀ key target r, f.body = .routine key target → library key = some r → r.IsPassive

/-- Computations on the number of the next call. -/
abbrev Counting := Stateful Nat

/-- The result of a passive function. The objects in the arguments of a routine are marked with the
step and the number of the call. -/
def Function.counted (library : Library) (sheet : Sheet) (step : Nat) (f : Function)
    (args : List Value) : Counting Value :=
  match f.body with
  | .routine key _ =>
    if f.accepts args.length then
      match library key with
      | some r => do
        let number ← get
        set (number + 1)
        MonadExcept.ofExcept (r.run (Value.allIdentified (.call step number) args)).result
      | none => throw .wrongType
    else throw .wrongType
  | _ => MonadExcept.ofExcept (f.applyPure sheet args)

namespace Ensemble

variable {library : Library} {setting : Setting} {n : Nat}

/-- Calling a passive function changes nothing but the number of the next call. -/
theorem run_call {f : Function} (hf : f.IsPassive library) (args : List Value) (e : Ensemble) :
    (call library setting n f args).run e =
      (((f.counted library setting.sheet e.step args).run e.calls).1,
        { e with calls := ((f.counted library setting.sheet e.step args).run e.calls).2 }) := by
  rw [call, reentryLimit, callWithin.eq_def, Function.counted]
  rcases hbody : f.body with b | g | ⟨key, target⟩
  · simp only [hbody, Stateful.run_ofExcept]
  · simp only [hbody, Stateful.run_ofExcept]
  · simp only [hbody]
    by_cases ha : f.accepts args.length = true
    · rw [if_pos ha, if_pos ha]
      rcases hr : library key with - | r
      · rfl
      · obtain ⟨result, hdone⟩ :=
          hf key target r hbody hr (Value.allIdentified (.call e.step e.calls) args)
        simp only [Stateful.run_bind, identified, Stateful.run_get, Stateful.run_set,
          Stateful.run_pure, hdone, runScript, Script.result, Stateful.run_ofExcept]
    · rw [if_neg ha, if_neg ha]
      rfl

/-! ### Objects of calls to come -/

theorem holdsCallFrom_calculator {e : Ensemble} {number : Nat}
    (h : e.holdsCallFrom number = false) (n : Nat) :
    (e.calculator n).holdsCallFrom e.step number = false := by
  rw [Ensemble.calculator]
  rcases hn : Table.get? e.calculators n with - | c
  · rfl
  · have := List.any_eq_false.mp h (n, c) (Table.mem_of_get? hn)
    simpa using this

theorem holdsCallFrom_put {e : Ensemble} {number : Nat} (h : e.holdsCallFrom number = false)
    {c : Calculator} (hc : c.holdsCallFrom e.step number = false) :
    (e.put n c).holdsCallFrom number = false := by
  rw [Ensemble.holdsCallFrom, List.any_eq_false]
  intro entry hentry
  rcases Table.mem_insert hentry with hentry | hentry
  · exact List.any_eq_false.mp h entry hentry
  · rw [hentry]
    exact Bool.eq_false_iff.mp hc

/-! ### Learning ensembles -/

theorem put_put (e : Ensemble) (n : Nat) (c c' : Calculator) : (e.put n c).put n c' = e.put n c' := by
  simp only [put, Table.insert_insert]

/-- What an ensemble may have become when one of its calculators was read. -/
structure Learnt (setting : Setting) (n : Nat) (e e' : Ensemble) : Prop where
  calculator : (e.calculator n).Learnt setting (e'.calculator n)
  others : ∀ c, Table.insert e'.calculators n c = Table.insert e.calculators n c
  step : e'.step = e.step
  notes : e'.notes = e.notes

namespace Learnt

variable {e e' e'' : Ensemble}

theorem refl (e : Ensemble) : Learnt setting n e e := ⟨.refl _, fun _ => rfl, rfl, rfl⟩

theorem trans (h : Learnt setting n e e') (h' : Learnt setting n e' e'') :
    Learnt setting n e e'' where
  calculator := h.calculator.trans h'.calculator
  others c := (h'.others c).trans (h.others c)
  step := h'.step.trans h.step
  notes := h'.notes.trans h.notes

/-- Reading lets no calculator hold an object that none held before. -/
theorem holdsCallFrom (h : Learnt setting n e e') {number : Nat}
    (hfree : e.holdsCallFrom number = false) : e'.holdsCallFrom number = false := by
  have hself : (e'.calculator n).holdsCallFrom e.step number = false := by
    have hsame : (e'.calculator n).holdsCallFrom e.step number =
        (e.calculator n).holdsCallFrom e.step number := by
      rw [Calculator.holdsCallFrom, Calculator.holdsCallFrom, h.calculator.memory,
        h.calculator.view]
    rw [hsame]
    exact holdsCallFrom_calculator hfree n
  rw [Ensemble.holdsCallFrom, List.any_eq_false]
  intro entry hentry
  -- every entry was there before, or is the calculator that was read
  have hmem := Table.mem_insert_getD hentry n default
  rw [h.others] at hmem
  rw [h.step]
  rcases Table.mem_insert hmem with hmem | hmem
  · exact List.any_eq_false.mp hfree entry hmem
  · rw [hmem]
    simpa [Ensemble.calculator] using hself

end Learnt

theorem learnt_put {e : Ensemble} {c : Calculator}
    (h : (e.calculator n).Learnt setting c) : Learnt setting n e (e.put n c) where
  calculator := by
    rw [calculator_put_self]
    exact h
  others c' := Table.insert_insert _ _ _ _
  step := rfl
  notes := rfl

theorem learnt_calls (e : Ensemble) (calls : Nat) :
    Learnt setting n e { e with calls := calls } := ⟨.refl _, fun _ => rfl, rfl, rfl⟩

/-! ### Following -/

/-- Whether a computation on an ensemble in which a calculator has learnt, in a step, answers what
one on the number of the next call answers, and does no more than to learn and to count. -/
def Follows (setting : Setting) (n : Nat) (c : Calculator) (step : Nat) {α : Type} (run : Run α)
    (count : Counting α) : Prop :=
  ∀ e : Ensemble, c.Learnt setting (e.calculator n) → e.step = step →
    ∃ e', run.run e = ((count.run e.calls).1, e') ∧ e'.calls = (count.run e.calls).2 ∧
      Learnt setting n e e'

variable {c : Calculator} {step : Nat}

theorem follows_pure {α : Type} (a : α) : Follows setting n c step (pure a) (pure a) :=
  fun e _ _ => ⟨e, rfl, rfl, .refl e⟩

theorem follows_throw {α : Type} (fault : Error) :
    Follows setting n c step (throw fault : Run α) (throw fault) :=
  fun e _ _ => ⟨e, rfl, rfl, .refl e⟩

theorem follows_bind {α β : Type} {x : Run α} {y : Counting α} {f : α → Run β}
    {g : α → Counting β} (hx : Follows setting n c step x y)
    (hf : ∀ a k k', y.run k = (.ok a, k') → Follows setting n c step (f a) (g a)) :
    Follows setting n c step (x >>= f) (y >>= g) := by
  intro e hc hs
  obtain ⟨e', hrun, hcalls, hlearnt⟩ := hx e hc hs
  rw [Stateful.run_bind, Stateful.run_bind, hrun]
  rcases hy : y.run e.calls with ⟨fault | a, k⟩
  · rw [hy] at hcalls
    exact ⟨e', rfl, hcalls, hlearnt⟩
  · rw [hy] at hcalls
    obtain ⟨e'', hrun', hcalls', hlearnt'⟩ :=
      hf a _ _ hy e' (hc.trans hlearnt.calculator) (hlearnt.step.trans hs)
    rw [show e'.calls = k from hcalls] at hrun' hcalls'
    exact ⟨e'', hrun', hcalls', hlearnt.trans hlearnt'⟩

/-- Following as a correspondence. -/
def following (setting : Setting) (n : Nat) (c : Calculator) (step : Nat) :
    Correspondence Run Counting where
  rel := Follows setting n c step
  pure := follows_pure
  throw := follows_throw
  bind hx hf := follows_bind hx fun a _ _ _ => hf a

theorem follows_call {f : Function} (hf : f.IsPassive library) (args : List Value) :
    Follows setting n c step (call library setting n f args)
      (f.counted library setting.sheet step args) := by
  rintro e - rfl
  exact ⟨_, run_call hf args e, rfl, learnt_calls e _⟩

theorem follows_resolve (expression : Value) :
    Follows setting n c step (onOne n (Calculator.resolve setting expression))
      (MonadExcept.ofExcept (c.treeOf setting expression)) := by
  intro e hc _
  obtain ⟨c', hrun, hlearnt⟩ := Calculator.run_resolve setting expression (e.calculator n)
  refine ⟨e.put n c', ?_, ?_, learnt_put hlearnt⟩
  · rw [onOne, ExceptT.run_mk, hrun, Stateful.run_ofExcept, hc.tree]
  · rw [Stateful.run_ofExcept]
    rfl

/-- A key that is no text stands for nothing. -/
theorem evalBy_keyed (call : Function → List Value → Run Value) (n : Nat) (key : Value)
    (formula : Expr → Run Value) :
    (Expr.keyed key).evalBy (surroundings call n) formula = throw .wrongType := by
  rw [Expr.evalBy]
  simp only [surroundings]
  split
  · rfl
  · rfl

/-- **A tree of passive functions** is worth what it is worth in the memory that its calculator
shows, if the formulas there call passive functions only. -/
theorem follows_evalWithin
    (hbound : ∀ z v, Table.get? c.view z = some v → ∀ f ∈ v.functions, f.IsPassive library)
    (depth : Nat) {e : Expr} (he : ∀ f ∈ e.functions, f.IsPassive library) :
    Follows setting n c step (e.evalWithin (surroundings (call library setting n) n) depth)
      (e.evalWithin (c.view.surroundingsWith (Function.counted library setting.sheet step))
        depth) := by
  refine Expr.evalWithin_rel (following setting n c step)
    (surroundings (call library setting n) n)
    (c.view.surroundingsWith (Function.counted library setting.sheet step))
    (fun e => ∀ f ∈ e.functions, f.IsPassive library) ?_ ?_
    (fun he f hf args => follows_call (he f hf) args) depth he
  · intro formula formula' key
    rw [evalBy_keyed, Memory.evalBy_keyed]
    exact follows_throw _
  · intro formula formula' e _ hformula name _
    rw [Memory.evalBy_identifier]
    intro e hc hs
    have hlookup : ((surroundings (call library setting n) n).lookup name).run e =
        (.ok (Table.get? c.view name), e) := by
      rw [← hc.view]
      rfl
    rw [Expr.evalBy, Stateful.run_bind, hlookup]
    rcases hv : Table.get? c.view name with - | v
    · exact follows_throw _ e hc hs
    · have hfollowed : Follows setting n c step (v.followed formula) (v.followed formula') := by
        refine (following setting n c step).followed fun e' he' => hformula e' ?_
        rw [← Value.functions_of_expr? he']
        exact hbound name v hv
      exact hfollowed e hc hs

/-! ### Expressions with data -/

/-- What follows inside of data follows outside of it. -/
theorem follows_withData {α : Type} {data : Mapping} {body : Run α} {count : Counting α}
    (h : Follows setting n (c.opened data) step body count) :
    Follows setting n c step (withData n (.map data) body) count := by
  intro e hc hs
  obtain ⟨after, hrun, hcalls, hlearnt⟩ := h (e.put n ((e.calculator n).opened data))
    (by
      rw [calculator_put_self]
      exact hc.opened data) hs
  have hinside : ((e.calculator n).opened data).Learnt setting (after.calculator n) := by
    have := hlearnt.calculator
    rwa [calculator_put_self] at this
  refine ⟨after.put n (Calculator.closeData (e.calculator n) (after.calculator n)), ?_, hcalls, ?_⟩
  · rw [withData, ExceptT.run_mk, Calculator.openData_map]
    simp only [hrun]
    rfl
  · refine ⟨?_, fun c' => ?_, hlearnt.step, hlearnt.notes⟩
    · rw [calculator_put_self]
      exact hinside.closeData
    · calc Table.insert (after.put n _).calculators n c'
          = Table.insert after.calculators n c' := Table.insert_insert _ _ _ _
        _ = Table.insert (e.put n ((e.calculator n).opened data)).calculators n c' :=
            hlearnt.others c'
        _ = Table.insert e.calculators n c' := Table.insert_insert _ _ _ _

end Ensemble

/-- The free names of a tree that a memory does not bind. -/
def Expr.unboundIn (memory : Memory) (e : Expr) : List String :=
  e.freeNames.filter fun name => !Table.has memory name

namespace Calculator

/-- The value of an expression with a mapping bound, as a computation on the number of the next
call. -/
def valueOf (library : Library) (setting : Setting) (step : Nat) (c : Calculator) (data : Mapping)
    (expression : Value) : Counting Value := do
  let e ← MonadExcept.ofExcept (c.treeOf setting expression)
  let memory := (c.opened data).memory
  if (e.unboundIn memory).isEmpty then
    e.evalWithin (memory.surroundingsWith (Function.counted library setting.sheet step))
      Ensemble.formulaLimit
  else throw (.unbound (e.unboundIn memory) none)

variable {library : Library} {setting : Setting} {step : Nat} {c : Calculator} {data : Mapping}
  {expression : Value}

theorem valueOf_of_error {fault : Error} (h : c.treeOf setting expression = .error fault) :
    c.valueOf library setting step data expression = throw fault := by
  rw [valueOf, h]
  rfl

theorem valueOf_of_ok {e : Expr} (h : c.treeOf setting expression = .ok e) :
    c.valueOf library setting step data expression =
      if (e.unboundIn (c.opened data).memory).isEmpty then
        e.evalWithin
          ((c.opened data).memory.surroundingsWith (Function.counted library setting.sheet step))
          Ensemble.formulaLimit
      else throw (.unbound (e.unboundIn (c.opened data).memory) none) := by
  rw [valueOf, h]
  rfl

end Calculator

namespace Ensemble

variable {library : Library} {setting : Setting} {n : Nat} {c : Calculator} {step : Nat}

theorem follows_evaluateOne {data : Mapping} {expression : Value}
    (htree : ∀ e, c.treeOf setting expression = .ok e → ∀ f ∈ e.functions, f.IsPassive library)
    (hbound : ∀ z v, Table.get? (c.opened data).memory z = some v →
      ∀ f ∈ v.functions, f.IsPassive library) :
    Follows setting n c step (evaluateOne setting (call library setting n) n expression (.map data))
      (c.valueOf library setting step data expression) := by
  refine follows_withData ?_
  rw [Calculator.valueOf, ← Calculator.treeOf_opened c data]
  refine follows_bind (follows_resolve expression) fun e k k' he => ?_
  rw [Stateful.run_ofExcept, Calculator.treeOf_opened] at he
  have hpassive := htree e (Prod.ext_iff.mp he).1
  -- the memory that the names are looked for in is the one with the data
  intro ensemble hc hs
  rw [Stateful.run_bind, Stateful.run_get]
  simp only [hc.memory]
  rcases hu : (e.freeNames.filter fun name => !Table.has (c.opened data).memory name).isEmpty
    with - | -
  all_goals rw [Expr.unboundIn, hu]
  · exact follows_throw _ ensemble hc hs
  · exact follows_evalWithin (c := c.opened data) hbound formulaLimit hpassive ensemble hc hs

end Ensemble

/-! ### Lists of expressions -/

mutual

/-- The single expressions in a nested list of them. -/
def Value.singles : Value → List Value
  | .list items => Value.allSingles items
  | .tuple items => Value.allSingles items
  | v => [v]

/-- The single expressions in the items of a list. -/
def Value.allSingles : List Value → List Value
  | [] => []
  | v :: vs => v.singles ++ Value.allSingles vs

end

namespace Ensemble

section

variable {m m' : Type → Type} [Monad m] [Monad m']

section

variable (R : Stepwise m m') (one : Value → m Value) (other : Value → m' Value)

mutual

/-- Related computations for the single expressions of a nested list are related for the list. -/
theorem forEach_stepwise : ∀ v : Value, (∀ w ∈ v.singles, R.rel (one w) (other w)) →
    R.rel (forEach one v) (forEach other v)
  | .list items, h | .tuple items, h => by
    rw [forEach, forEach]
    exact R.bind (forAll_stepwise items h) fun vs => R.pure _
  | .none, h | .bool _, h | .int _, h | .float _, h | .complex _, h | .text _, h | .map _, h
  | .symbol _, h | .undefined, h | .node _, h | .cell .., h | .object .., h => by
    simp only [forEach]
    exact h _ (List.mem_singleton.mpr rfl)

theorem forAll_stepwise : ∀ vs : List Value, (∀ w ∈ Value.allSingles vs, R.rel (one w) (other w)) →
    R.rel (forAll one vs) (forAll other vs)
  | [], _ => by
    rw [forAll, forAll]
    exact R.pure []
  | v :: vs, h => by
    rw [forAll, forAll]
    refine R.bind (forEach_stepwise v fun w hw => h w (List.mem_append_left _ hw)) fun result => ?_
    refine R.bind (forAll_stepwise vs fun w hw => h w (List.mem_append_right _ hw))
      fun results => ?_
    exact R.pure (result :: results)

end

end

theorem forEach_rel [MonadExceptOf Error m] [MonadExceptOf Error m'] (R : Correspondence m m')
    (one : Value → m Value) (other : Value → m' Value) (v : Value)
    (h : ∀ w ∈ v.singles, R.rel (one w) (other w)) : R.rel (forEach one v) (forEach other v) :=
  forEach_stepwise R.stepwise one other v h

end

variable {library : Library} {setting : Setting} {n : Nat} {c : Calculator} {step : Nat}

/-- **Evaluating follows counting**: where all functions that it may come to are passive, the
evaluation of an expression, or of each of a nested list of them, answers what `valueOf` answers. -/
theorem follows_evaluateEach {data : Mapping} {expression : Value}
    (htree : ∀ w ∈ expression.singles, ∀ e, c.treeOf setting w = .ok e →
      ∀ f ∈ e.functions, f.IsPassive library)
    (hbound : ∀ z v, Table.get? (c.opened data).memory z = some v →
      ∀ f ∈ v.functions, f.IsPassive library) :
    Follows setting n c step (evaluateEach library setting n expression (.map data))
      (forEach (c.valueOf library setting step data) expression) :=
  forEach_rel (following setting n c step) _ _ expression fun w hw =>
    follows_evaluateOne (htree w hw) hbound

end Ensemble

end Formulary
