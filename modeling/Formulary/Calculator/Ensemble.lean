import Formulary.Calculator.Reading
import Formulary.Mapping.Shared

/-!
# Ensembles of calculators

A routine runs on the calculator that it was made for, whichever calculator calls it. So
calculators that share their default functions form an ensemble, in which each has a number, and an
evaluation is a computation on the ensemble.

The ensemble also keeps what concerns objects. A write into an object is seen by every calculator
that holds it, and all writes so far are remembered in order, for values that are out of sight for a
while. Objects that are made on the way to a call are marked with the number of the call among those
of the session's step, so that two of them can be told apart. And it keeps the notes of routines and
handlers, which are what they remember from one call to the next.
-/

namespace Formulary

/-- A calculator after writes into objects that its values hold. -/
def Calculator.receiveAll (writes : List ObjectWrite) (c : Calculator) : Calculator :=
  { c with
    bindings := { c.bindings with memory := Table.receiveAll writes c.bindings.memory }
    cache := { c.cache with entries := Table.receiveAll writes c.cache.entries } }

/-- Whether a calculator binds a name to an object of a call in a step from a number on, or reads it
in a running evaluation. -/
def Calculator.holdsCallFrom (step number : Nat) (c : Calculator) : Bool :=
  (c.memory ++ c.view).any fun entry => entry.2.holdsCallFrom step number

@[simp] theorem Calculator.receiveAll_nil (c : Calculator) : c.receiveAll [] = c := rfl

theorem Calculator.receiveAll_default (writes : List ObjectWrite) :
    (default : Calculator).receiveAll writes = default := by
  rcases writes with - | ⟨w, rest⟩
  · rfl
  · rfl

/-- Calculators by number, the writes into objects so far, the step and the number of the next call
of a routine in it, and what routines and handlers have noted. -/
structure Ensemble where
  calculators : Table Nat Calculator
  writes : List ObjectWrite
  step : Nat
  calls : Nat
  notes : List String

namespace Ensemble

/-- No calculators. -/
def empty : Ensemble := ⟨[], [], 0, 0, []⟩

/-- The calculator of a number. -/
def calculator (e : Ensemble) (n : Nat) : Calculator :=
  (Table.get? e.calculators n).getD default

/-- The ensemble with a calculator in the place of a number. -/
def put (e : Ensemble) (n : Nat) (c : Calculator) : Ensemble :=
  { e with calculators := Table.insert e.calculators n c }

/-- The ensemble after writes into objects. -/
def receiveAll (writes : List ObjectWrite) (e : Ensemble) : Ensemble :=
  { e with
    calculators := e.calculators.map fun entry => (entry.1, entry.2.receiveAll writes)
    writes := e.writes ++ writes }

theorem calculator_put (e : Ensemble) (n m : Nat) (c : Calculator) :
    (e.put n c).calculator m = if n = m then c else e.calculator m := by
  by_cases h : n = m <;> simp [calculator, put, Table.get?_insert, h]

@[simp] theorem calculator_put_self (e : Ensemble) (n : Nat) (c : Calculator) :
    (e.put n c).calculator n = c := by
  simp [calculator_put]

theorem receiveAll_nil (e : Ensemble) : e.receiveAll [] = e := by
  simp [receiveAll]

theorem calculator_receiveAll (writes : List ObjectWrite) (e : Ensemble) (n : Nat) :
    (e.receiveAll writes).calculator n = (e.calculator n).receiveAll writes := by
  rw [calculator, calculator, receiveAll, Table.get?_mapValues]
  rcases Table.get? e.calculators n with - | c
  · exact (Calculator.receiveAll_default writes).symm
  · rfl

/-! ### Computations -/

/-- A computation on an ensemble. A failure keeps what was done before it. -/
abbrev Run (α : Type) := ExceptT Error (StateM Ensemble) α

/-- A computation on the calculator of a number. -/
def onOne {α : Type} (n : Nat) (run : Calculator.Run α) : Run α := ExceptT.mk fun e =>
  let (outcome, c) := run.run (e.calculator n)
  (outcome, e.put n c)

/-- A computation with data bound to the calculator of a number for its time. -/
def withData {α : Type} (n : Nat) (data : Value) (body : Run α) : Run α := ExceptT.mk fun e =>
  match (e.calculator n).openData data with
  | .error fault => (.error fault, e)
  | .ok inside =>
    let (outcome, after) := body.run (e.put n inside)
    (outcome, after.put n (Calculator.closeData (e.calculator n) (after.calculator n)))

/-- Whether some calculator holds an object of a call in the running step from a number on. -/
def holdsCallFrom (e : Ensemble) (number : Nat) : Bool :=
  e.calculators.any fun entry => entry.2.holdsCallFrom e.step number

/-- A computation after which the numbers of the calls in it are free again: `leave` takes the marks
with them out of its value, given the step and the first number, and the next call has the number
that the first one had. As long as a calculator holds objects with these marks nothing is freed. -/
def isolated (leave : Nat → Nat → Value → Value) (run : Run Value) : Run Value :=
  ExceptT.mk fun e =>
    let (outcome, after) := run.run e
    if after.calls = e.calls || after.holdsCallFrom e.calls then (outcome, after)
    else (outcome.map (leave e.step e.calls), { after with calls := e.calls })

/-- The arguments of a call with their objects marked, the call being the next one. -/
def identified (args : List Value) : Run (List Value) := do
  let e ← get
  set { e with calls := e.calls + 1 }
  return Value.allIdentified (.call e.step e.calls) args

theorem calculator_isolated (leave : Nat → Nat → Value → Value) (run : Run Value) (e : Ensemble)
    (n : Nat) : ((isolated leave run).run e).2.calculator n = (run.run e).2.calculator n := by
  simp only [isolated, ExceptT.run_mk]
  rcases ExceptT.run run e with ⟨outcome, after⟩
  by_cases h : (after.calls = e.calls || after.holdsCallFrom e.calls) = true
  · simp [h]
  · simp only [h]
    rfl

theorem memory_withData {α : Type} (n : Nat) (data : Value) (body : Run α) (e : Ensemble) :
    (((withData n data body).run e).2.calculator n).memory = (e.calculator n).memory := by
  simp only [withData, ExceptT.run_mk]
  split
  · rfl
  · next inside _ =>
    rcases ExceptT.run body (e.put n inside) with ⟨outcome, after⟩
    simp

end Ensemble

end Formulary
