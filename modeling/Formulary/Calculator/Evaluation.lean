import Formulary.Calculator.Ensemble
import Formulary.Expr.Evaluation
import Formulary.Function.Routine

/-!
# Evaluation on a calculator

Evaluating an expression on one calculator of an ensemble binds the given data for the time of the
evaluation, finds the tree, checks that every name it reads is bound, and walks it. Whatever
happens, the bindings are afterwards as they were.

Everything that an evaluation does to a calculator besides is to parse texts into the cache. Since a
routine may evaluate again, calls of routines are nested at most `reentryLimit` deep.
-/

namespace Formulary

namespace Ensemble

/-! ### Evaluating trees -/

/-- How many formulas may be open at once. A routine may bind names while an expression is
evaluated, so the number of names at the start is no bound. -/
def formulaLimit : Nat := 1000

/-- The surroundings of an evaluation that runs on the calculator of a number. -/
def surroundings (call : Function → List Value → Run Value) (n : Nat) : Surroundings Run where
  lookup name := do return Table.get? ((← get).calculator n).view name
  lookupKey key := if key.isHashable then pure none else throw .wrongType
  call := call

/-- The value of one expression with data bound. Every name it reads must be bound. -/
def evaluateOne (setting : Setting) (call : Function → List Value → Run Value) (n : Nat)
    (expression data : Value) : Run Value :=
  withData n data do
    let e ← onOne n (Calculator.resolve setting expression)
    let memory := ((← get).calculator n).memory
    let unbound := e.freeNames.filter fun name => !Table.has memory name
    if !unbound.isEmpty then throw (.unbound unbound none)
    e.evalWithin (surroundings call n) formulaLimit

/-- What answers for a forgivable failure of an expression. -/
abbrev Handler := Value → Error → Except Error Value

/-- The handler that answers with nothing. -/
def Handler.silent : Handler := fun _ _ => pure .none

/-- The value of one expression, or the handler's answer to a forgivable failure. -/
def evaluateOneOr (setting : Setting) (call : Function → List Value → Run Value) (n : Nat)
    (handler : Handler) (expression data : Value) : Run Value :=
  tryCatch (evaluateOne setting call n expression data) fun e =>
    if e.IsForgivable then MonadExcept.ofExcept (handler expression e) else throw e

/-! ### Lists of expressions -/

section

variable {m : Type → Type} [Monad m]

mutual

/-- One computation for each expression of a nested list, with the results in the same nesting as
lists. -/
def forEach (one : Value → m Value) : Value → m Value
  | .list items => do return .list (← forAll one items)
  | .tuple items => do return .list (← forAll one items)
  | v => one v

/-- The results for the expressions of a list, from the first on. -/
def forAll (one : Value → m Value) : List Value → m (List Value)
  | [] => pure []
  | v :: vs => do
    let result ← forEach one v
    return result :: (← forAll one vs)

end

end

/-! ### Calling functions -/

/-- What an action does to the calculator of a number, given how expressions are evaluated. Storing,
clearing and noting answer with nothing. -/
def perform (n : Nat) (evaluate evaluateStrict : Value → Value → Run Value) : Action → Run Value
  | .read key => do
    match ((← get).calculator n).bindings.get? key with
    | some v => return v
    | none => throw .missingKey
  | .look name => do
    match Table.get? ((← get).calculator n).view name with
    | some v => return v
    | none => throw .missingKey
  | .store key value => onOne n do
    modify fun c => { c with bindings := c.bindings.write key value }
    return .none
  | .storeAll data => onOne n do
    let c ← get
    let bindings ← MonadExcept.ofExcept (c.bindings.store data none)
    set { c with bindings := bindings }
    return .none
  | .clear => onOne n do
    modify fun c => { c with bindings := c.bindings.clear, detached := some c.view }
    return .none
  | .clearCache forgets => onOne n do
    modify fun c => { c with cache := c.cache.forget forgets }
    return .none
  | .evaluate expression data => evaluate expression data
  | .evaluateStrict expression data => evaluateStrict expression data
  | .readNotes => do return .list ((← get).notes.map .text)
  | .note text => do
    modify fun e => { e with notes := e.notes ++ [text] }
    return .none

/-- What a script does, given what its actions do. -/
def runScript (perform : Action → Run Value) : Script → Run Value
  | .done result => MonadExcept.ofExcept result
  | .act action next => do
    let outcome ← tryCatch (Except.ok <$> perform action) fun e => pure (.error e)
    runScript perform (next outcome)

/-- The result of a function called on the calculator of a number when at most `depth` calls of
routines may be open. A routine runs on the calculator that it was made for. -/
def callWithin (library : Library) (setting : Setting) :
    Nat → Nat → Function → List Value → Run Value
  | depth, n, f, args =>
    match f.body with
    | .routine key target =>
      if f.accepts args.length then
        match library key, depth with
        | some routine, depth + 1 => do
          let m := target.getD n
          let call := callWithin library setting depth m
          let args ← identified args
          runScript
            (perform m
              (fun expression data =>
                forEach (evaluateOneOr setting call m Handler.silent · data) expression)
              (fun expression data => forEach (evaluateOne setting call m · data) expression))
            (routine.run args)
        | some _, 0 => throw .tooDeep
        | none, _ => throw .wrongType
      else throw .wrongType
    | _ => MonadExcept.ofExcept (f.applyPure setting.sheet args)

/-- How deep calls of routines may be nested. -/
def reentryLimit : Nat := 1000

/-- The result of a function called on the calculator of a number. -/
def call (library : Library) (setting : Setting) (n : Nat) : Function → List Value → Run Value :=
  callWithin library setting reentryLimit n

/-! ### The evaluations -/

/-- The value of an expression, or of each of a nested list of them, as a part of what is going on:
the objects of the calls in it keep their marks. -/
def evaluateEach (library : Library) (setting : Setting) (n : Nat) (expression data : Value) :
    Run Value :=
  forEach (evaluateOne setting (call library setting n) n · data) expression

/-- The value of an expression, or of each of a nested list of them, on the calculator of a
number. -/
def evaluateStrict (library : Library) (setting : Setting) (n : Nat) (expression data : Value) :
    Run Value :=
  forEach (fun v => isolated Value.released (evaluateOne setting (call library setting n) n v data))
    expression

/-- The value of an expression, or of each of a nested list of them, on the calculator of a number,
with a handler for forgivable failures. -/
def evaluate (library : Library) (setting : Setting) (n : Nat) (handler : Handler)
    (expression data : Value) : Run Value :=
  forEach
    (fun v => isolated Value.released
      (evaluateOneOr setting (call library setting n) n handler v data))
    expression

end Ensemble

end Formulary
