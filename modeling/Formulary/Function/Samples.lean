import Formulary.Function.Routine
import Formulary.Value.Arithmetic

/-!
# Sample routines

A small library of routines, at least one for each way in which a routine can behave: constant,
computed, with optional and any number of arguments, failing with each kind of failure, acting on
the calculator it runs on, and remembering its calls.
-/

namespace Formulary.Samples

/-- A routine that only computes. -/
def computing (minArgs : Nat) (maxArgs : Option Nat)
    (compute : List Value → Except Error Value) : Routine :=
  ⟨minArgs, maxArgs, fun args => .done (compute args)⟩

/-- A routine of one argument. -/
def ofOne (compute : Value → Except Error Value) : Routine :=
  computing 1 (some 1) fun
    | [v] => compute v
    | _ => throw .wrongType

/-- Whether the first value is below the second. -/
def isBelow (v w : Value) : Except Error Bool := do
  return (← Operator.lt.apply v w).truthy

/-- The value moved to the nearer end of a range that it lies outside of. -/
def clamp (v low high : Value) : Except Error Value := do
  if ← isBelow v low then return low
  else if ← isBelow high v then return high
  else return v

/-- The greatest of a first and further values; of equal ones the first. -/
def greatestOf (first : Value) (rest : List Value) : Except Error Value :=
  rest.foldlM (fun best v => do return if ← isBelow best v then v else best) first

/-- The greatest argument, or the greatest item of a single one. -/
def greatest : List Value → Except Error Value
  | [] => throw .wrongType
  | [v] => do
    match v.elements? with
    | none => throw .wrongType
    | some [] => throw .badValue
    | some (first :: rest) => greatestOf first rest
  | first :: rest => greatestOf first rest

/-- The expression and data that a re-entrant routine evaluates. -/
def scaled (v : Value) : Value × Value :=
  (.text "value * factor", .map [(.text "value", v)])

/-- A routine of one argument that performs one action and ends with its outcome. -/
def acting (action : Value → Action) (result : Value → Except Error Value → Except Error Value) :
    Routine where
  minArgs := 1
  maxArgs := some 1
  run
    | [v] => .act (action v) fun outcome => .done (result v outcome)
    | _ => .done (throw .wrongType)

/-- A routine that counts its calls, with a note for each. -/
def counting : Routine where
  minArgs := 0
  maxArgs := some 0
  run _ := .act (.note "") fun _ => .act .readNotes fun outcome =>
    .done (outcome.map fun notes => .int (notes.elements?.getD []).length)

/-- A routine that has its calculator forget all texts. -/
def forgetting : Routine where
  minArgs := 0
  maxArgs := some 0
  run _ := .act (.clearCache fun _ => true) .done

/-- The sample routines by their keys. -/
def table : List (String × Routine) :=
  [("three", computing 0 (some 0) fun _ => pure (.int 3)),
   ("double", ofOne fun v => Operator.mul.apply v (.int 2)),
   ("inc", ofOne fun v => Operator.add.apply v (.int 1)),
   ("greet", ofOne fun v => Operator.add.apply (.text "hi ") v),
   ("clamp", computing 1 (some 3) fun
      | [v] => clamp v (.int 0) (.int 1)
      | [v, low] => clamp v low (.int 1)
      | [v, low, high] => clamp v low high
      | _ => throw .wrongType),
   ("count_rest", computing 1 none fun args => pure (.int (args.length - 1))),
   ("count_all", computing 0 none fun args => pure (.int args.length)),
   ("list", computing 0 none fun args => pure (.list args)),
   ("same", ofOne pure),
   ("greatest", computing 0 none greatest),
   ("fail_invalid", computing 0 none fun _ => throw (.worded .argument "custom failure")),
   ("fail_unbound", computing 0 none fun _ => throw (.unbound ["zeta", "alpha"] none)),
   ("fail_message", ofOne fun _ => throw (.unbound ["zeta"] (some "own text"))),
   ("scale", acting (fun v => .evaluateStrict (scaled v).1 (scaled v).2) fun _ => id),
   ("soft_scale", acting (fun v => .evaluate (scaled v).1 (scaled v).2) fun _ => id),
   ("bind_seen", acting (fun v => .store (.text "seen") v) fun v outcome => outcome.map fun _ => v),
   ("count_calls", counting),
   ("forget", forgetting)]

/-- The library of the sample routines. -/
def library : Library := fun key => table.lookup key

end Formulary.Samples
