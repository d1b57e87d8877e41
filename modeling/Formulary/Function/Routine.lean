import Formulary.Error
import Formulary.Function.Registry
import Formulary.Value.Basic

/-!
# Routines

A routine is a function body from outside. It may do more than compute: it can read and bind names
in the calculator it runs on, clear its bindings, have it forget parsed texts and evaluate other
expressions on it. It may also remember things outside of all calculators, which it does by notes.
What a routine does is a script, which performs one action after the other and goes on with each
action's outcome. A library knows routines by keys. A routine runs on the calculator that calls it,
unless it was offered for another one.
-/

namespace Formulary

/-- What a routine may do with the calculator it runs on, and with the notes of all routines. To
look up a name is to read the values that the running evaluation reads, as a node from outside
does. -/
inductive Action
  | read (key : Value)
  | look (name : String)
  | store (key value : Value)
  | storeAll (data : Value)
  | clear
  | clearCache (forgets : String → Bool)
  | evaluate (expression data : Value)
  | evaluateStrict (expression data : Value)
  | readNotes
  | note (text : String)

/-- What a routine does: it ends with a result, or performs an action and goes on. -/
inductive Script
  | done (result : Except Error Value)
  | act (action : Action) (next : Except Error Value → Script)

/-- A function body from outside, with the numbers of arguments it accepts. -/
structure Routine where
  minArgs : Nat
  maxArgs : Option Nat
  run : List Value → Script

/-- The routines that keys stand for; a key without a routine is nothing that can be called. -/
abbrev Library := String → Option Routine

/-- What a key offers to a registry, perhaps for one calculator. -/
def Library.offered (library : Library) (key : String) (target : Option Nat) :
    Option OfferedBody :=
  (library key).map fun r => ⟨.routine key target, r.minArgs, r.maxArgs⟩

/-- The result of a script that needs no calculator. -/
def Script.result : Script → Except Error Value
  | .done result => result
  | .act _ _ => throw .unimplemented

end Formulary
