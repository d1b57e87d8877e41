import Formulary.Calculator.Evaluation
import Formulary.DependencyGraph

/-!
# Solving expressions that read each other

A bulk solve takes a mapping of named expressions. Nested mappings are solved under the written
forms of their paths, and no two keys may mean the same name. The names are put in an order in which
each comes after the names it reads; then each is evaluated with the values solved so far as data.
A name that the calculator binds to a plain value already has that value.

A failure that spoils only the one expression is handed to a handler together with the name of the
expression, and what the handler answers is the result but is not seen by other expressions. All
other failures, and circles among the names above all, end the solve. A handler comes from outside,
as a routine does, and may act on the calculators in the middle of the solve.

At the end the results are nested as the expressions were. A result that is a mapping is that very
mapping, so an expression whose path leads on into it writes into it, wherever it is kept.
-/

namespace Formulary

/-- A failure, with the name of the expression that it spoils if it comes from a bulk solve. -/
structure Failure where
  error : Error
  recipient : Option String

namespace Ensemble

/-- A computation on an ensemble whose failures may say whom they spoil. -/
abbrev Solve (α : Type) := ExceptT Failure (StateM Ensemble) α

/-- What answers for a recoverable failure. It may act on the calculators before it does. -/
abbrev SolveHandler := Failure → Solve Value

/-- What there is to answer to recoverable failures. -/
abbrev Answers := Failure → Except Failure Value

/-- Failed expressions are marked as undefined. -/
def Answers.lenient : Answers := fun _ => pure .undefined

/-- Every failure is passed on. -/
def Answers.strict : Answers := fun failure => throw failure

/-- The handler that only answers. -/
def SolveHandler.quiet (answers : Answers) : SolveHandler := fun failure =>
  MonadExcept.ofExcept (answers failure)

/-- The handler that marks a failed expression as undefined. -/
abbrev SolveHandler.lenient : SolveHandler := .quiet .lenient

/-- The handler that passes every failure on. -/
abbrev SolveHandler.strict : SolveHandler := .quiet .strict

/-- A computation whose failures spoil nothing in particular. -/
def Run.toSolve {α : Type} (run : Run α) : Solve α :=
  ExceptT.adapt (fun e => ⟨e, none⟩) run

/-! ### Names -/

/-- An expression of a bulk solve: its name, the caller's key and the expression itself. -/
structure Named where
  name : String
  key : Value
  expression : Value

/-- The named expressions of a flat mapping after the given ones; two keys with one name collide. -/
def nameAfter (b : Bindings) (before : List Named) : Mapping → Except Error (List Named)
  | [] => pure before
  | (key, expression) :: rest =>
    let name := b.normalize key
    match before.find? (·.name == name) with
    | some other => throw (.argument (.collision other.key.shown key.shown name))
    | none => nameAfter b (before ++ [⟨name, key, expression⟩]) rest

/-- The item of a list or tuple at a place, which may count from the end. -/
def itemAt (items : List Value) (place : Value) : Except Error Value :=
  match place.integer? with
  | none => throw .wrongType
  | some i =>
    match if i < 0 then i + items.length else i with
    | .ofNat j => match items[j]? with
      | some v => pure v
      | none => throw .outOfRange
    | .negSucc _ => throw .outOfRange

/-- What a value that is no mapping has under a key, if it has keys at all. -/
def lookUp (v key : Value) : Except Error Value :=
  match v.bare with
  | .list items | .tuple items => itemAt items key
  | _ => throw .wrongType

/-- The keys and expressions of what is to be solved, up to the first key without an expression and
with the failure to find one. Only where mappings are promised to be flat is anything else looked
into: it then counts as a mapping of its elements to what it has under them. -/
def flatExpressions (b : Bindings) (expressions : Value) :
    Except Error (Mapping × Option Error) :=
  match expressions.entries?, b.ignoreNested with
  | some entries, promised => pure (Mapping.flattenUnless promised entries, none)
  | none, false => throw .missingPart
  | none, true =>
    match expressions.elements? with
    | none => throw .wrongType
    | some keys => do
      let _ ← nameAfter b [] (keys.map (·, .none))
      return found keys
where
  /-- The keys with what is found under them, up to the first one that fails. -/
  found : List Value → Mapping × Option Error
    | [] => ([], none)
    | key :: rest =>
      match lookUp expressions key with
      | .ok v => ((key, v) :: (found rest).1, (found rest).2)
      | .error e => ([], some e)

/-- The named expressions of what is to be solved, and the failure to find the next one. -/
def namedExpressions (b : Bindings) (expressions : Value) :
    Except Error (List Named × Option Error) := do
  let (flat, fault) ← flatExpressions b expressions
  return (← nameAfter b [] flat, fault)

/-! ### Order -/

/-- Whether an expression reads names: only texts and trees do. -/
def readsNames (expression : Value) : Bool :=
  expression.text?.isSome || expression.expr?.isSome

/-- The names among the given ones that an expression reads. -/
def readsAmong (setting : Setting) (names : List String) (expression : Value) :
    Calculator.Run (List String) :=
  if readsNames expression then do
    return (← Calculator.dependencies setting .none expression).filter (· ∈ names)
  else pure []

/-- The graph of named expressions, added to the graph of those before them. -/
def graphAfter (setting : Setting) (names : List String) (g : DependencyGraph) :
    List Named → Calculator.Run DependencyGraph
  | [] => pure g
  | n :: rest => do
    let reads ← readsAmong setting names n.expression
    graphAfter setting names (g.addNode n.name reads) rest

/-- The names in an order in which each comes after the names it reads. If an expression could not
be found, this shows after those before it were read. -/
def solveOrder (setting : Setting) (named : List Named) (fault : Option Error) :
    Calculator.Run (List String) := do
  let g ← graphAfter setting (named.map Named.name) .empty named
  match fault with
  | some e => throw e
  | none => MonadExcept.ofExcept g.order

/-! ### Results -/

/-- What a solve has found so far: the values that later expressions see, and the result of every
name, the answers of the handler included. -/
structure Progress where
  solved : Table String Value
  results : Table String Value

/-- Progress before anything is solved. -/
def Progress.none : Progress := ⟨[], []⟩

/-- Progress with a result, and with what later expressions see of it. -/
def Progress.solve (p : Progress) (name : String) (v seen : Value) : Progress :=
  ⟨Table.insert p.solved name seen, Table.insert p.results name v⟩

/-- Progress with a result that no other expression sees. -/
def Progress.answer (p : Progress) (name : String) (v : Value) : Progress :=
  { p with results := Table.insert p.results name v }

/-- The plain value that a memory binds to a name already. -/
def boundValue? (memory : Memory) (name : String) : Option Value :=
  match Table.get? memory name with
  | none => none
  | some v =>
    match v.bare with
    | .node _ | .undefined => none
    | _ => some v

/-- The data that the values solved so far are. -/
def Progress.data (p : Progress) : Value :=
  .map (p.solved.map fun entry => (.text entry.1, entry.2))

/-- Progress after one more expression, its failure being put to the handler if it is recoverable.
The objects in its value become those of its result, and from here on its name stands for these same
objects. -/
def solveAnew (evaluate : Value → Value → Run Value) (handler : SolveHandler) (p : Progress)
    (x : Named) : Solve Progress := ExceptT.mk fun e =>
  let origin := .result e.step x.name
  let run := isolated (Value.settled origin) (evaluate x.expression p.data)
  match run.run e with
  | (.ok v, e) => (.ok (p.solve x.name v (v.identified origin)), e)
  | (.error fault, e) =>
    if fault.IsRecoverable then (p.answer x.name <$> handler ⟨fault, some x.name⟩).run e
    else (.error ⟨fault, none⟩, e)

/-- Progress after one more expression, for a calculator of a number. What is bound already is left
as it is. -/
def solveOne (evaluate : Value → Value → Run Value) (handler : SolveHandler) (n : Nat)
    (p : Progress) (x : Named) : Solve Progress := do
  match boundValue? ((← get).calculator n).view x.name with
  | some v => return p.solve x.name v v
  | none => solveAnew evaluate handler p x

/-- Progress after the expressions of the given names in turn. -/
def solveNames (evaluate : Value → Value → Run Value) (handler : SolveHandler) (n : Nat)
    (named : List Named) : Progress → List String → Solve Progress
  | p, [] => pure p
  | p, name :: rest =>
    match named.find? (·.name == name) with
    | some x => do
      let p ← solveOne evaluate handler n p x
      solveNames evaluate handler n named p rest
    | none => solveNames evaluate handler n named p rest

/-- A computation for which the bindings of the calculator of a number are those that it has at the
start, with what is written into them on the way. It goes on reading them if they are cleared. -/
def holding {α : Type} (n : Nat) (body : Solve α) : Solve α := ExceptT.mk fun e =>
  let (outcome, after) := body.run (e.put n (e.calculator n).attached)
  (outcome, after.put n { after.calculator n with detached := (e.calculator n).detached })

/-! ### Nesting the results -/

/-- The results under the callers' keys. -/
def resultsByKey (named : List Named) (p : Progress) : Mapping :=
  named.filterMap fun n => (Table.get? p.results n.name).map (n.key, ·)

/-- The named expressions of what is to be solved on the calculator of a number, and the results of
all of them. -/
def solveFlat (library : Library) (setting : Setting) (n : Nat) (handler : SolveHandler)
    (expressions : Value) : Solve (List Named × Progress) := do
  let c := (← get).calculator n
  let (named, fault) ← MonadExcept.ofExcept <|
    (namedExpressions c.bindings expressions).mapError (⟨·, none⟩)
  let order ← (onOne n (solveOrder setting named fault)).toSolve
  let p ← holding n (solveNames (evaluateEach library setting n) handler n named .none order)
  return (named, p)

/-- The results of a nested mapping of expressions on the calculator of a number, nested again. -/
def solve (library : Library) (setting : Setting) (n : Nat) (handler : SolveHandler)
    (expressions : Value) : Solve Value := do
  let b := ((← get).calculator n).bindings
  let (named, p) ← solveFlat library setting n handler expressions
  let step := (← get).step
  let x := Mapping.expandShared
    (fun key v => v.identified (.result step (b.normalize key))) (resultsByKey named p)
  modify (receiveAll x.writes)
  return .map x.nested

end Ensemble

end Formulary
