import Formulary.Text.Quoted

/-!
# Errors

Every failure is one constructor of `Error`, named for its cause and carrying what its wording
needs; values that appear in a wording are carried as they are shown. `Error.kind` sorts the causes
into the kinds that callers tell apart, `ErrorKind.ancestors` says which kinds are special cases of
which, and `Error.message` is the one place where the wording is.

The errors that spoil only the one expression they come from are `Error.IsRecoverable`; those that
a lenient evaluation answers instead of raising are `Error.IsForgivable`, and they are recoverable
(`isRecoverable_of_isForgivable`).
-/

namespace Formulary

/-- The kinds of failure that callers tell apart. -/
inductive ErrorKind
  | calculator
  | parse
  | token
  | unbound
  | argument
  | circular
  | division
  | type
  | value
  | overflow
  | index
  | key
  | unimplemented
  | runtime
  | depth
  | memory
  | missing
  deriving DecidableEq, Repr

/-- The kinds of the library's own failures that a kind is, itself included. -/
def ErrorKind.ancestors : ErrorKind → List ErrorKind
  | .calculator => [.calculator]
  | .parse => [.calculator, .parse]
  | .token => [.calculator, .parse, .token]
  | .unbound => [.calculator, .unbound]
  | .argument => [.calculator, .argument]
  | .circular => [.calculator, .circular]
  | _ => []

/-- Whether a kind also counts as a failure of a bad value. -/
def ErrorKind.isValueError : ErrorKind → Bool
  | .value | .argument | .circular => true
  | _ => false

/-- Why a list of tokens is not an expression. Found tokens are carried as they are shown. -/
inductive ParseFault
  | empty
  | unexpectedEnd
  | unexpected (found : String) (position : Int)
  | missing (wanted : Char) (found : Option String)
  | choiceCount (count : Nat)
  | undefinedFunction (name : String)
  | argumentCount (name : String) (count : Nat)
  deriving DecidableEq, Repr

/-- Why an operation cannot act on its argument. Values are carried as they are shown. -/
inductive ArgumentFault
  | notNumeric (function shown : String)
  | noNumbers (function : String)
  | negativeRoot (shown : String)
  | noArguments (function : String)
  | negativeCount (function : String) (count : Int)
  | startBelowOne (start : Int)
  | notCallable (name : String)
  | returnType (given name : String)
  | pattern (shown : String)
  | collision (first second name : String)
  deriving DecidableEq, Repr

/-- The causes of failure. -/
inductive Error
  /-- No token starts at this place of the text. -/
  | unexpectedCharacter (c : Char) (position : Nat) (text : String)
  /-- The tokens form no expression. -/
  | parse (fault : ParseFault)
  /-- Names without a value, in the order they were found, and the wording if it is unusual. -/
  | unbound (names : List String) (wording : Option String)
  /-- An operation was given an argument it cannot act on. -/
  | argument (fault : ArgumentFault)
  /-- The named expressions depend on each other in a circle. -/
  | circular (names : List String)
  | divisionByZero
  | moduloByZero
  /-- An operator or function has no meaning on these kinds of values. -/
  | wrongType
  /-- Bulk storing was given something that is not a mapping. -/
  | notMapping (shown : String)
  /-- A value of the right kind that the operation has no result for. -/
  | badValue
  /-- A comparison token that names no operator. -/
  | unknownOperator (shown : String)
  /-- A number too large for a floating-point number. -/
  | overflow
  /-- A place where there is nothing, such as the first key of a path without keys. -/
  | outOfRange
  /-- A key that nothing is kept under. -/
  | missingKey
  /-- A node that is not of any kind of expression. -/
  | unimplemented
  /-- Formulas or calls nested beyond every bound. -/
  | tooDeep
  /-- A sequence too long to be held. -/
  | outOfRoom
  /-- A value that lacks what is asked of it, such as one that is no expression. -/
  | missingPart
  /-- A failure raised from outside in its own words. -/
  | worded (kind : ErrorKind) (wording : String)
  deriving DecidableEq, Repr

/-- The kind of a failure. -/
def Error.kind : Error → ErrorKind
  | .unexpectedCharacter .. => .token
  | .parse _ => .parse
  | .unbound .. => .unbound
  | .argument _ => .argument
  | .circular _ => .circular
  | .divisionByZero | .moduloByZero => .division
  | .wrongType | .notMapping _ => .type
  | .badValue | .unknownOperator _ => .value
  | .overflow => .overflow
  | .outOfRange => .index
  | .missingKey => .key
  | .unimplemented => .unimplemented
  | .tooDeep => .depth
  | .outOfRoom => .memory
  | .missingPart => .missing
  | .worded kind _ => kind

/-! ### Wording -/

/-- The names with a comma between each two. -/
def commaSeparated (names : List String) : String := ", ".intercalate names

/-- The wording of a parse fault. -/
def ParseFault.message : ParseFault → String
  | .empty => "empty expression"
  | .unexpectedEnd => "unexpected end of expression"
  | .unexpected found position => s!"unexpected {found} at position {position}"
  | .missing wanted (some found) => s!"expected '{wanted}', found {found}"
  | .missing wanted none => s!"expected '{wanted}', found end of expression"
  | .choiceCount count => s!"IF requires 2 or 3 arguments, got {count}"
  | .undefinedFunction name => s!"undefined function {name}"
  | .argumentCount name count => s!"wrong number of arguments for {name}: got {count}"

/-- The wording of an argument fault. -/
def ArgumentFault.message : ArgumentFault → String
  | .notNumeric function shown => s!"{function}: non-numeric argument {shown}"
  | .noNumbers function => s!"{function} requires at least one numeric argument"
  | .negativeRoot shown => s!"SQRT: negative argument {shown}"
  | .noArguments function => s!"{function} requires at least 1 argument"
  | .negativeCount function count => s!"{function}: negative character count {count}"
  | .startBelowOne start => s!"MID: start must be >= 1, got {start}"
  | .notCallable name => s!"function body for {Text.quote name} is not callable"
  | .returnType given name =>
    s!"unknown return type {Text.quote given} for {Text.quote name}; " ++
      "expected one of ['any', 'logical', 'numeric', 'string']"
  | .pattern shown => s!"unsupported cache invalidation pattern: {shown}"
  | .collision first second name =>
    s!"expression names {first} and {second} collide as {Text.quote name}"

/-- The wording of a failure; the failures of plain arithmetic have none. -/
def Error.message : Error → Option String
  | .unexpectedCharacter c position text =>
    s!"unexpected character {Text.quote c.toString} at position {position} in {Text.quote text}"
  | .parse fault => fault.message
  | .unbound names wording => wording.getD <|
    "no value provided for variables: " ++ commaSeparated (names.mergeSort (· ≤ ·))
  | .argument fault => fault.message
  | .circular names =>
    "Circular reference detected involving: " ++ commaSeparated names
  | .moduloByZero => "MOD: division by zero"
  | .notMapping shown => s!"store() needs a mapping or a name and a value, got {shown}"
  | .unknownOperator shown => s!"Unknown operator: {shown}"
  | .worded _ wording => wording
  | .divisionByZero | .wrongType | .badValue | .overflow | .outOfRange | .missingKey | .unimplemented
  | .tooDeep | .outOfRoom | .missingPart => none

/-- The names that a failure reports as having no value. -/
def Error.unboundNames : Error → List String
  | .unbound names _ => names
  | _ => []

/-! ### Failures that spoil one expression only -/

/-- A lenient evaluation answers these failures instead of raising them. -/
def Error.IsForgivable (e : Error) : Prop := e.kind = .unbound ∨ e.kind = .argument

/-- These failures of one expression leave the others of a bulk solve alone. -/
def Error.IsRecoverable (e : Error) : Prop :=
  e.kind = .unbound ∨ e.kind = .argument ∨ e.kind = .division

instance (e : Error) : Decidable e.IsForgivable := inferInstanceAs (Decidable (_ ∨ _))

instance (e : Error) : Decidable e.IsRecoverable := inferInstanceAs (Decidable (_ ∨ _ ∨ _))

theorem Error.isRecoverable_of_isForgivable {e : Error} (h : e.IsForgivable) :
    e.IsRecoverable :=
  h.imp_right Or.inl

/-! ### Computations that may fail -/

theorem Except.bind_eq_ok_iff {ε α β : Type} {x : Except ε α} {f : α → Except ε β} {b : β} :
    x >>= f = .ok b ↔ ∃ a, x = .ok a ∧ f a = .ok b := by
  cases x with
  | error e => exact ⟨nofun, nofun⟩
  | ok a =>
    refine ⟨fun h => ⟨a, rfl, h⟩, ?_⟩
    rintro ⟨_, ⟨⟩, h⟩
    exact h

end Formulary
