import Formulary.Session.Bindings
import Formulary.Session.Registry

/-!
# Sessions on calculators

A session on calculators has an ensemble of them, some by name, and the setting they share. Every
command is for one calculator. The openings write data for a while or suspend the cache for a while.
What is seen are the memory and the cached texts of the calculator that has the name of the step.

A name may be given to a new calculator while an opening still holds the old one. When the opening
is left, the old one is brought back as it was, but for what was written into objects meanwhile.
-/

namespace Formulary

namespace CalculatorSession

/-- The calculators, which of them have which names, and what they share. -/
structure State where
  setting : Setting
  ensemble : Ensemble
  numbers : Table String Nat

/-- What is seen of a calculator. -/
structure Seen where
  memory : Memory
  cached : List String

/-- What a command asks of a calculator. -/
inductive Request
  | new (plan : Calculator.Plan)
  | evaluate (expression data : Value) (handler : Ensemble.Handler)
  | evaluateStrict (expression data : Value)
  | dependencies (expression data : Value)
  | solve (expressions : Value) (answers : Ensemble.Answers)
  | resolve (expression : Value)
  | sameTree (expression : Value) (other : Option Value)
  | store (writing : Writing)
  | storeFormula (key formula : Value)
  | clear
  | isEmpty
  | clearCache (request : CachePattern.Request)
  | addFunctions (functions : List (String × String × String))
  | addDefaultFunction (name returnType body : String)
  | hasFunction (name : String)
  | setDefaultAliases (pairs : List (String × String))
  | turnCaching (value : Value)

/-- A request for a calculator. -/
structure Command where
  calculator : String
  request : Request

/-- What a block opens. -/
inductive Opening.Kind
  | scope (writing : Writing)
  | suspendCache

/-- A block on a calculator. -/
structure Opening where
  calculator : String
  kind : Opening.Kind

/-- The state with a new calculator of a name. -/
def State.withNew (s : State) (name : String) (plan : Calculator.Plan) : State :=
  let number := s.ensemble.calculators.length
  { s with
    ensemble := s.ensemble.put number (.ofPlan s.setting plan)
    numbers := Table.insert s.numbers name number }

/-- The state at the start, with a calculator of the usual plan if one is asked for. -/
def State.initial (sheet : Sheet) (main : Option String) : State :=
  let first : State := ⟨Setting.initial sheet, .empty, []⟩
  match main with
  | some name => first.withNew name .usual
  | none => first

/-- The number of the calculator of a name. -/
def State.number (s : State) (name : String) : Nat := (Table.get? s.numbers name).getD 0

/-- The calculator of a name. -/
def State.calculator (s : State) (name : String) : Calculator :=
  s.ensemble.calculator (s.number name)

/-- A computation on the ensemble as the next step. -/
def nextStep (s : State) (run : Ensemble.Solve Value) : Except Failure Value × State :=
  let (outcome, e) := run.run { s.ensemble with step := s.ensemble.step + 1, calls := 0 }
  (outcome, { s with ensemble := e })

/-- A computation on one calculator that answers with true. -/
def answeringTrue (n : Nat) (run : Calculator.Run Unit) : Ensemble.Solve Value :=
  Ensemble.Run.toSolve <| Ensemble.onOne n do
    run
    return .bool true

/-- Whether there is only one object with the contents of a value: so it is with truth values, the
marker of undefined results, the least integers, the shortest texts and the empty tuple. -/
def isUnique (v : Value) : Bool :=
  match v.bare with
  | .bool _ | .undefined => true
  | .int n => -5 ≤ n && n ≤ 256
  | .text s => s.length ≤ 1 && s.toList.all (·.toNat < 256)
  | .tuple items => items.isEmpty
  | _ => false

/-- Whether two values of which there is only one object each are the same object. -/
def isSameUnique (v w : Value) : Bool := isUnique v && isUnique w && v.shown == w.shown

/-- Whether an expression and another one have one and the same tree: both are the same expression
again, or texts for which the cache knows the same tree. -/
def findsSame (c : Calculator) (expression : Value) (other : Option Value) : Bool :=
  match other with
  | none => expression.expr?.isSome || (c.cached? expression).isSome
  | some other =>
    match c.cached? expression, c.cached? other with
    | some v, some w => expression.text? == other.text? || isSameUnique v w
    | _, _ => false

/-- The tree of an expression as an answer, or the plain value that the cache was seeded with for
its text. -/
def resolved (setting : Setting) (expression : Value) : Calculator.Run Value := do
  match (← get).cached? expression, expression.expr? with
  | some v, _ => return v
  | none, some _ => return expression
  | none, none => return .node (← Calculator.resolveAnew setting expression)

/-- Whether an expression, and another one or the same again, have one and the same tree. Another
one that counts as false is none. -/
def sameTree (setting : Setting) (expression : Value) (other : Option Value) :
    Calculator.Run Value := do
  let other := other.filter Value.truthy
  let _ ← resolved setting expression
  let _ ← resolved setting (other.getD expression)
  return .bool (findsSame (← get) expression other)

/-- A calculator with functions registered one by one, up to the first that fails. -/
def addFunctions (library : Library) :
    List (String × String × String) → Calculator.Run Unit
  | [] => pure ()
  | (name, returnType, body) :: rest => do
    let offered := library.offered body none
    set (← MonadExcept.ofExcept ((← get).addFunction name returnType offered))
    addFunctions library rest

/-- The computation that a request asks of the calculator of a number, if it is for that calculator
alone. -/
def computation (library : Library) (setting : Setting) (n : Nat) :
    Request → Ensemble.Solve Value
  | .evaluate expression data handler =>
    (Ensemble.evaluate library setting n handler expression data).toSolve
  | .evaluateStrict expression data =>
    (Ensemble.evaluateStrict library setting n expression data).toSolve
  | .dependencies expression data => Ensemble.Run.toSolve <| Ensemble.onOne n do
    return .list ((← Calculator.dependencies setting data expression).map .text)
  | .solve expressions answers => Ensemble.solve library setting n (.quiet answers) expressions
  | .resolve expression => (Ensemble.onOne n (resolved setting expression)).toSolve
  | .sameTree expression other => (Ensemble.onOne n (sameTree setting expression other)).toSolve
  | .store writing => answeringTrue n do
    let c ← get
    set { c with
      bindings := ← MonadExcept.ofExcept (c.bindings.store writing.key writing.value) }
  | .storeFormula key formula => answeringTrue n do
    let tree ← resolved setting formula
    modify fun c => { c with bindings := c.bindings.write key tree }
  | .clear => answeringTrue n (modify fun c => { c with bindings := c.bindings.clear })
  | .isEmpty => Ensemble.Run.toSolve <| Ensemble.onOne n do return .bool (← get).memory.isEmpty
  | .clearCache request => answeringTrue n do
    let p ← MonadExcept.ofExcept (CachePattern.ofRequest request)
    let c ← get
    set { c with cache := ← MonadExcept.ofExcept (c.cache.invalidate p) }
  | .addFunctions functions => answeringTrue n (addFunctions library functions)
  | .hasFunction name => Ensemble.Run.toSolve <| Ensemble.onOne n do
    return .bool (Registry.find? ((← get).chain setting) name).isSome
  | .new _ | .addDefaultFunction .. | .setDefaultAliases _ | .turnCaching _ => pure .none

/-- What a command does. A default function runs on the calculator it was registered through. -/
def act (library : Library) (command : Command) (s : State) : Except Failure Value × State :=
  let number := s.number command.calculator
  match command.request with
  | .new plan => (.ok .none, s.withNew command.calculator plan)
  | .addDefaultFunction name returnType body =>
    match Registry.functionOf name returnType (library.offered body number) with
    | .ok f =>
      (.ok .none, { s with setting := { s.setting with defaults := s.setting.defaults.add f } })
    | .error e => (.error ⟨e, none⟩, s)
  | .setDefaultAliases pairs =>
    let aliases := upperAliases pairs
    (.ok (RegistrySession.describeAliases aliases),
      { s with setting := { s.setting with defaultAliases := aliases } })
  | .turnCaching value =>
    (.ok (.bool value.truthy), { s with setting := { s.setting with caching := value.truthy } })
  | request => nextStep s (computation library s.setting number request)

/-- The calculator inside an opening. -/
def enterOn : Opening.Kind → Calculator → Except Error Calculator
  | .scope writing, c => do
    return { c with bindings := ← c.bindings.enter writing.key writing.value }
  | .suspendCache, c => pure { c with cache := c.cache.suspend }

/-- The calculator after an opening that was entered from `before` and ended in `inside`, after
writes into objects that were made in between. -/
def leaveOn (writes : List ObjectWrite) : Opening.Kind → Calculator → Calculator → Calculator
  | .scope _, before, inside =>
    { inside with
      bindings := Bindings.leave (before.receiveAll writes).bindings inside.bindings }
  | .suspendCache, before, inside =>
    { inside with cache := Cache.resume before.cache inside.cache }

/-- What is seen of a calculator of a state. -/
def seen (s : State) (name : String) : Seen :=
  let c := s.calculator name
  ⟨c.memory, c.cache.texts⟩

/-- Sessions on calculators. -/
def session (library : Library) : Session State Seen Command Opening where
  act := act library
  enter opening s :=
    let number := s.number opening.calculator
    match enterOn opening.kind (s.ensemble.calculator number) with
    | .ok c => .ok { s with ensemble := s.ensemble.put number c }
    | .error e => .error ⟨e, none⟩
  leave opening before inside :=
    let number := before.number opening.calculator
    let writes := inside.ensemble.writes.drop before.ensemble.writes.length
    { inside with
      ensemble := inside.ensemble.put number
        (leaveOn writes opening.kind (before.ensemble.calculator number)
          (inside.ensemble.calculator number)) }
  seen command s := seen s command.calculator
  seenAt opening s := seen s opening.calculator

end CalculatorSession

end Formulary
