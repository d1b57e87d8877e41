import Formulary.Error
import Formulary.Table
import Formulary.Value.Basic

/-!
# Free names

The free names of an expression are the names it reads, in first-use order and without repetition.
Against bindings, a name bound to a plain value is not free, and a name bound to an expression
stands for the free names of that expression. If that expression leads back to the name, the search
for them would open it again and again; it fails as an evaluation does that opens too many formulas.
A node from outside announces its names itself. A key that is no text is not a name (see
`Formulary.Expr.FreeKeys`).

The search is written once for every monad. Whatever is bound, nothing can fail, so `Expr.freeNames`
is its pure instance.
-/

namespace Formulary

/-- The values that names are bound to, in the order in which the names were bound. -/
abbrev Memory := Table String Value

section

variable {m : Type → Type} [Monad m]

mutual

/-- The free names of an expression, given how it is found what each name stands for. -/
def Expr.freeNamesBy (behind : String → m (List String)) : Expr → m (List String)
  | .literal _ => pure []
  | .identifier name => behind name
  | .keyed _ => pure []
  | .negation e => do return (← e.freeNamesBy behind).eraseDups
  | .binary _ l r => do
    let names ← l.freeNamesBy behind
    return (names ++ (← r.freeNamesBy behind)).eraseDups
  | .call _ args => do return (← Expr.allFreeNamesBy behind args).eraseDups
  | .choice c t e => do
    let names ← c.freeNamesBy behind
    let more ← t.freeNamesBy behind
    return (names ++ (more ++ (← e.freeNamesBy behind))).eraseDups
  | .given _ needs | .asking _ needs => pure needs

/-- The free names of several expressions one after the other. -/
def Expr.allFreeNamesBy (behind : String → m (List String)) : List Expr → m (List String)
  | [] => pure []
  | e :: es => do
    let names ← e.freeNamesBy behind
    return names ++ (← Expr.allFreeNamesBy behind es)

end

end

/-- The free names that a name stands for when at most `depth` formulas may be open. A name that
needs more of them than there are names leads back to itself, and the search for what it stands for
comes to no end. -/
def Memory.namesBehind (memory : Memory) : Nat → String → Except Error (List String)
  | depth, name =>
    match Table.get? memory name with
    | none => pure [name]
    | some v =>
      match v.expr?, depth with
      | none, _ => pure []
      | some _, 0 => throw .tooDeep
      | some e, depth + 1 => e.freeNamesBy (namesBehind memory depth)

/-- The names that an expression reads, whatever is bound. -/
def Expr.freeNames (e : Expr) : List String := Id.run (e.freeNamesBy fun name => pure [name])

/-- The names that an expression reads and that have no value in a memory. -/
def Expr.freeNamesIn (memory : Memory) (e : Expr) : Except Error (List String) :=
  e.freeNamesBy (memory.namesBehind memory.length)

@[simp] theorem Expr.freeNames_identifier (name : String) :
    (Expr.identifier name).freeNames = [name] := by
  simp [freeNames, freeNamesBy]

@[simp] theorem Expr.freeNames_literal (v : Value) : (Expr.literal v).freeNames = [] := by
  simp [freeNames, freeNamesBy]

end Formulary
