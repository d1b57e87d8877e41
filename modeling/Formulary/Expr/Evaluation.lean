import Formulary.Expr.FreeKeys
import Formulary.Expr.FreeNames
import Formulary.Function.Builtin
import Formulary.Function.Sheet

/-!
# The value of an expression

Evaluation walks the tree from left to right. What the leaves mean comes from the surroundings: how
a name or another key is looked up and how a function is called. A name that is bound to an
expression stands for the value of that expression in the same surroundings; the number of such
formulas that may be open at once is bounded, since with more open than there are names a formula
waits for itself. A node from outside is a constant or asks a function, so it can do what a function
can: read what is bound, fail, and evaluate other expressions.

The walk is written once for every monad of effects. `Expr.valueIn` is its pure instance, with the
functions that have no effects against a fixed memory, and `Expr.valueAt` is the same against a
mapping of any keys.
-/

namespace Formulary

/-- What an evaluation takes from its surroundings. -/
structure Surroundings (m : Type → Type) where
  lookup : String → m (Option Value)
  lookupKey : Value → m (Option Value)
  call : Function → List Value → m Value

section

variable {m : Type → Type} [Monad m] [MonadExceptOf Error m]

/-- What a bound value stands for: a formula for its value, and any other value for itself. -/
def Value.followed (formula : Expr → m Value) (v : Value) : m Value :=
  match v.expr? with
  | some e => formula e
  | Option.none => pure v

mutual

/-- The value of an expression, given how the formula behind a name is evaluated. A key that is no
text and is not bound cannot even be reported as unbound. -/
def Expr.evalBy (s : Surroundings m) (formula : Expr → m Value) : Expr → m Value
  | .literal v => pure v
  | .identifier name => do
    match ← s.lookup name with
    | none => throw (.unbound [name] none)
    | some v => v.followed formula
  | .keyed key => do
    match ← s.lookupKey key with
    | none => throw .wrongType
    | some v => v.followed formula
  | .negation e => do MonadExcept.ofExcept (← e.evalBy s formula).neg
  | .binary op l r => do
    let v ← l.evalBy s formula
    let w ← r.evalBy s formula
    MonadExcept.ofExcept (op.apply v w)
  | .call f args => do s.call f (← Expr.evalAllBy s formula args)
  | .choice c t e => do
    if (← c.evalBy s formula).truthy then t.evalBy s formula else e.evalBy s formula
  | .given result _ => pure result
  | .asking f _ => s.call f []

/-- The values of several expressions from left to right. -/
def Expr.evalAllBy (s : Surroundings m) (formula : Expr → m Value) : List Expr → m (List Value)
  | [] => pure []
  | e :: es => do
    let v ← e.evalBy s formula
    return v :: (← Expr.evalAllBy s formula es)

end

/-- The value of an expression with at most `depth` formulas open at once. -/
def Expr.evalWithin (s : Surroundings m) : Nat → Expr → m Value
  | 0, e => e.evalBy s fun _ => throw .tooDeep
  | depth + 1, e => e.evalBy s (evalWithin s depth)

end

/-! ### Pure evaluation -/

/-- The result of a function without effects. What it accepts is checked again, since a call need
not come from an expression. -/
def Function.applyPure (sheet : Sheet) (f : Function) (args : List Value) : Except Error Value :=
  if f.accepts args.length then
    match f.body with
    | .builtin b => b.apply args
    | .sheet name => sheet.apply name args
    | .routine .. => throw .unimplemented
  else throw .wrongType

/-- The surroundings of a fixed memory and functions without effects. -/
def Memory.surroundings (sheet : Sheet) (memory : Memory) : Surroundings (Except Error) where
  lookup name := pure (Table.get? memory name)
  lookupKey key := if key.isHashable then pure none else throw .wrongType
  call := Function.applyPure sheet

/-- The value of an expression against a fixed memory. -/
def Expr.valueIn (sheet : Sheet) (memory : Memory) (e : Expr) : Except Error Value :=
  e.evalWithin (memory.surroundings sheet) memory.length

/-- The surroundings of a fixed mapping and functions without effects. -/
def Mapping.surroundings (sheet : Sheet) (bindings : Mapping) : Surroundings (Except Error) where
  lookup name := pure (Table.get? bindings (.text name))
  lookupKey := bindings.lookup
  call := Function.applyPure sheet

/-- The value of an expression against a mapping, which may have keys that are no texts. -/
def Expr.valueAt (sheet : Sheet) (bindings : Mapping) (e : Expr) : Except Error Value :=
  e.evalWithin (bindings.surroundings sheet) bindings.length

end Formulary
