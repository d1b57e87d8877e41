import Formulary.Error
import Formulary.Function.Builtin
import Formulary.Function.Sheet
import Formulary.Table

/-!
# Registries of functions

A registry maps upper-case names to functions. A chain of registries is searched from the nearest
on; registering always changes the nearest one. Behind the chain there may be the spreadsheet
library. A function can be registered only with a body that
can be called and a known return type, in this order of complaint.
-/

namespace Formulary

/-- The functions that one registry knows itself. -/
abbrev Registry := Table String Function

/-- A body that a caller offers: what it runs and the least and greatest number of arguments. -/
structure OfferedBody where
  body : Body
  minArgs : Nat
  maxArgs : Option Nat

namespace Registry

/-- The function of a name in the first registry of a chain that has one. -/
def find? (chain : List Registry) (name : String) : Option Function :=
  chain.findSome? fun registry => Table.get? registry (Text.upperCase name)

/-- The function of a name in a chain, or else in the spreadsheet library. -/
def findOrSheet? (sheet : Sheet) (chain : List Registry) (name : String) : Option Function :=
  (find? chain name).or (sheet.find? (Text.upperCase name))

/-- The function that a body becomes under a name; nothing offered means a body that cannot be
called. -/
def functionOf (name returnType : String) (offered : Option OfferedBody) :
    Except Error Function :=
  match offered, ReturnType.ofName? returnType with
  | none, _ => throw (.argument (.notCallable name))
  | some _, none => throw (.argument (.returnType returnType name))
  | some o, some t => pure ⟨Text.upperCase name, t, o.body, o.minArgs, o.maxArgs⟩

/-- The registry with a function added under its name. -/
def add (registry : Registry) (f : Function) : Registry := Table.insert registry f.name f

/-- The names that some registry of a chain knows, nearest first. -/
def names (chain : List Registry) : List String :=
  (chain.flatMap Table.keys).eraseDups

/-- The registry of the builtins. -/
def builtins : Registry := Builtin.all.foldl (fun registry b => add registry b.function) []

theorem find?_cons (registry : Registry) (chain : List Registry) (name : String) :
    find? (registry :: chain) name =
      (Table.get? registry (Text.upperCase name)).or (find? chain name) := by
  simp only [find?, List.findSome?_cons]
  cases Table.get? registry (Text.upperCase name) <;> rfl

end Registry

end Formulary
