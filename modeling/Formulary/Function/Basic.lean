/-!
# Functions of the formula language

A function is registered under an upper-case name with a return type, a body and the numbers of
arguments it accepts. Bodies are named, not stored: the builtins, the functions that a spreadsheet
library has for names that are unknown otherwise, and the routines that a library of routines knows
by a key. A routine may be made for one calculator of several, named by its number. So an expression
that calls functions is plain data.
-/

namespace Formulary

/-- The builtin functions. -/
inductive Builtin
  | sum | min | max | average | count | abs | round | roundUp | roundDown | int | mod | power
  | sqrt | sign
  | and | or | not
  | left | right | mid | len | concat | upper | lower | trim
  deriving DecidableEq, Repr

/-- What kind of value a function announces. -/
inductive ReturnType
  | numeric | string | logical | any
  deriving DecidableEq, Repr

/-- The name of a return type. -/
def ReturnType.name : ReturnType → String
  | .numeric => "numeric"
  | .string => "string"
  | .logical => "logical"
  | .any => "any"

/-- The return type of a name. -/
def ReturnType.ofName? (name : String) : Option ReturnType :=
  [.numeric, .string, .logical, .any].find? (·.name == name)

/-- What a function runs. -/
inductive Body
  | builtin (which : Builtin)
  | sheet (name : String)
  | routine (key : String) (target : Option Nat)
  deriving DecidableEq, Repr

/-- A registered function. Without a greatest number of arguments it takes any number above the
least. -/
structure Function where
  name : String
  returnType : ReturnType
  body : Body
  minArgs : Nat
  maxArgs : Option Nat
  deriving DecidableEq, Repr

/-- Whether a function accepts this many arguments. -/
def Function.accepts (f : Function) (count : Nat) : Bool :=
  f.minArgs ≤ count && f.maxArgs.all (count ≤ ·)

theorem Function.accepts_iff {f : Function} {count : Nat} :
    f.accepts count = true ↔ f.minArgs ≤ count ∧ ∀ m, f.maxArgs = some m → count ≤ m := by
  cases h : f.maxArgs <;> simp [accepts, h]

end Formulary
