import Formulary.Value.Arithmetic

/-!
# Functions of the spreadsheet library

A name that no registry knows may still be a function of a spreadsheet library, which may be at
hand or not. Which functions it has and what they answer is up to the library. They may answer with
cells; `plainResult` takes the item out of a cell that holds just one, and turns a whole
floating-point number into an integer. A cell whose item cannot be taken out stays a cell.
-/

namespace Formulary

/-- The result of taking the item out of a cell; where the item itself is at fault the cell
stays. -/
def Item.take (item : Item) (cell : Value) : Except Error Value :=
  match item with
  | .missing | .fails .badValue | .fails .wrongType => pure cell
  | .fails .other => throw (.worded .runtime "the item is not available")
  | .yields v => pure v

/-- Whether a cell is opened: it says that its size is one, or it has neither that size nor a
shape. -/
def Value.opens (size : Option Number) (hasShape : Bool) : Bool :=
  size.any (·.equals (.int 1)) || !hasShape

/-- A whole floating-point number as an integer; other values are left alone. -/
def Value.wholeAsInteger (v : Value) : Value :=
  match v.bare with
  | .float x =>
    match x.truncate? with
    | some n => if x.isWhole then .int n else v
    | Option.none => v
  | _ => v

/-- The plain value of what a spreadsheet function answers. -/
def Value.plainResult (raw : Value) : Except Error Value :=
  match raw.bare with
  | .cell size hasShape item =>
    if Value.opens size hasShape then do return (← item.take raw).wholeAsInteger else pure raw
  | _ => pure raw.wholeAsInteger

/-- The spreadsheet library: what the function of an upper-case name answers, if it has one. Its
functions have no effects, so an answer depends on the arguments alone. -/
abbrev Sheet := String → Option (List Value → Except Error Value)

namespace Sheet

/-- A library without functions, which is as good as none. -/
def empty : Sheet := fun _ => none

/-- The function of an upper-case name; it takes any number of arguments as far as an expression is
concerned. -/
def find? (sheet : Sheet) (name : String) : Option Function :=
  (sheet name).map fun _ => ⟨name, .any, .sheet name, 0, none⟩

/-- The result of the function of a name. -/
def apply (sheet : Sheet) (name : String) (args : List Value) : Except Error Value :=
  match sheet name with
  | none => throw .wrongType
  | some answer => do (← answer args).plainResult

end Sheet

end Formulary
