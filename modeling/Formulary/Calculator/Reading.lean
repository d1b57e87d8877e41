import Formulary.Calculator.Basic

/-!
# What a calculator reads

An expression is given as a text, as a tree, or as any other value, which stands for itself; a list
or tuple stands for its items one by one. To read an expression is to find its tree, and perhaps the
names in it that have no value while some data is bound. Reading changes nothing in a calculator but
its cache, into which parsed texts go.
-/

namespace Formulary

namespace Calculator

/-- A computation on a calculator. A failure keeps what was done before it. -/
abbrev Run (α : Type) := ExceptT Error (StateM Calculator) α

/-! ### Finding the tree -/

/-- What the cache was seeded with or has learnt for an expression that is a text. -/
def cached? (c : Calculator) (expression : Value) : Option Value :=
  match expression.text?.bind c.cache.get? with
  | some .none | none => none
  | some v => some v

/-- The tree of an expression that the cache does not know: trees stand for themselves, texts are
parsed, and other values are literals. -/
def resolveAnew (setting : Setting) (expression : Value) : Run Expr :=
  match expression.expr?, expression.text? with
  | some e, _ => pure e
  | none, some s => do
    let c ← get
    let e ← MonadExcept.ofExcept (c.parse setting s)
    set { c with cache := c.cache.put setting.caching s (.node e) }
    return e
  | none, none => pure (.literal expression)

/-- The tree of an expression. A cache may have been seeded with what is no tree. -/
def resolve (setting : Setting) (expression : Value) : Run Expr := do
  match (← get).cached? expression with
  | none => resolveAnew setting expression
  | some v =>
    match v.expr? with
    | some e => return e
    | none => throw .missingPart

/-! ### Data for a while -/

/-- The data of an evaluation; nothing, and all that counts as false, is no data. -/
def dataOf (data : Value) : Value := if data.truthy then data else .map []

/-- The calculator with data bound. -/
def openData (data : Value) (c : Calculator) : Except Error Calculator := do
  return { c with bindings := ← c.bindings.enter (dataOf data) none, detached := none }

/-- The calculator after data was bound to one as it was before. -/
def closeData (before inside : Calculator) : Calculator :=
  { inside with
    bindings := Bindings.leave before.bindings inside.bindings, detached := before.detached }

/-- A computation with data bound for its time. -/
def withData {α : Type} (data : Value) (body : Run α) : Run α := ExceptT.mk fun c =>
  match c.openData data with
  | .error e => (.error e, c)
  | .ok inside =>
    let (outcome, after) := body.run inside
    (outcome, closeData c after)

@[simp] theorem memory_closeData (before inside : Calculator) :
    (closeData before inside).memory = before.memory := rfl

/-! ### Names without a value -/

/-- The names that one expression reads and that have no value once data is bound. -/
def dependenciesOfOne (setting : Setting) (expression data : Value) : Run (List String) :=
  withData data do
    let e ← resolve setting expression
    MonadExcept.ofExcept (e.freeNamesIn (← get).memory)

mutual

/-- The names without a value that an expression reads, or each of a nested list of them, one after
the other. -/
def dependencies (setting : Setting) (data : Value) : Value → Run (List String)
  | .list items => allDependencies setting data items
  | .tuple items => allDependencies setting data items
  | v => dependenciesOfOne setting v data

/-- The names without a value that the expressions of a list read, one after the other. -/
def allDependencies (setting : Setting) (data : Value) : List Value → Run (List String)
  | [] => pure []
  | v :: vs => do
    let names ← dependencies setting data v
    return names ++ (← allDependencies setting data vs)

end

end Calculator

end Formulary
