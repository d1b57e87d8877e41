import Formulary.Function.Basic
import Formulary.Number.Complex

/-!
# Values and expressions

Values are what expressions compute and what names are bound to; they are dynamic, since a formula
may be given anything its caller has. Expressions are values too: a name bound to an expression
stands for a stored formula. So the two types are defined together, with the contents of the cells
that spreadsheet functions answer with.

Most values are known by their contents. Some are not: a NaN differs from itself, a tree and a cell
from all but themselves, and a mapping may be written into. Where it matters which one such a value
is, it is marked as an object with an identity (see `Formulary.Value.Object`), and functions that
ask for the contents look through the mark.
-/

namespace Formulary

/-- The binary operators. -/
inductive Operator
  | add | sub | mul | div | mod | pow | concat | eq | ne | lt | gt | le | ge
  deriving DecidableEq, Repr

/-- Why the item of a cell cannot be taken out. -/
inductive ItemFault
  | badValue | wrongType | other
  deriving DecidableEq, Repr

/-- Where an object comes from: it was handed in, it was made on the way to a call of a routine, or
it is in the result of an expression of a bulk solve. Calls and solves are told apart by the step of
the session that they belong to, and calls in a step by their number. -/
inductive Origin
  | given
  | call (step number : Nat)
  | result (step : Nat) (name : String)
  deriving DecidableEq, Repr

/-- What tells an object from another one with the same contents: its origin, and its place among
the objects from there. -/
structure Identity where
  origin : Origin
  place : Nat
  deriving DecidableEq, Repr

mutual

/-- A dynamic value. The entries of a map are in insertion order and have keys that are pairwise
different. -/
inductive Value
  | none
  | bool (b : Bool)
  | int (n : Int)
  | float (x : Binary64)
  | complex (z : Complex)
  | text (s : String)
  | list (items : List Value)
  | tuple (items : List Value)
  | map (entries : List (Value × Value))
  /-- A key that carries a name and yet is equal to no text. -/
  | symbol (name : String)
  /-- The answer for an expression that could not be computed. -/
  | undefined
  | node (e : Expr)
  /-- What a spreadsheet function answers: it may announce a size and a shape. -/
  | cell (size : Option Number) (hasShape : Bool) (item : Item)
  /-- A value known as one particular object. -/
  | object (identity : Identity) (content : Value)

/-- What taking the item out of a cell gives. -/
inductive Item
  | missing
  | fails (fault : ItemFault)
  | yields (v : Value)

/-- An expression. -/
inductive Expr
  | literal (v : Value)
  | identifier (name : String)
  /-- What is bound to a key that is no text. -/
  | keyed (key : Value)
  | negation (operand : Expr)
  | binary (op : Operator) (left right : Expr)
  | call (f : Function) (args : List Expr)
  | choice (condition whenTrue whenFalse : Expr)
  /-- A node from outside: it has a fixed value and announces the names it needs. -/
  | given (result : Value) (needs : List String)
  /-- A node from outside that asks a function for its value whenever it is evaluated, and announces
  the names it needs. -/
  | asking (f : Function) (needs : List String)

end

instance : Inhabited Value := ⟨.none⟩
instance : Inhabited Expr := ⟨.literal .none⟩

/-- The symbol of an operator. -/
def Operator.symbol : Operator → String
  | .add => "+"
  | .sub => "-"
  | .mul => "*"
  | .div => "/"
  | .mod => "%"
  | .pow => "^"
  | .concat => "&"
  | .eq => "="
  | .ne => "<>"
  | .lt => "<"
  | .gt => ">"
  | .le => "<="
  | .ge => ">="

/-- All operators. -/
def Operator.all : List Operator :=
  [.add, .sub, .mul, .div, .mod, .pow, .concat, .eq, .ne, .lt, .gt, .le, .ge]

/-- The operator of a symbol. -/
def Operator.ofSymbol? (symbol : String) : Option Operator :=
  Operator.all.find? (·.symbol == symbol)

@[simp] theorem Operator.ofSymbol?_symbol (op : Operator) : ofSymbol? op.symbol = some op := by
  cases op <;> decide

namespace Value

/-- The contents of a value, without the marks of an object around them. -/
def bare : Value → Value
  | .object _ content => content.bare
  | v => v

/-- The identity of a value that is marked as an object. -/
def identity? : Value → Option Identity
  | .object identity _ => some identity
  | _ => Option.none

/-- The scalar that a value stands for in arithmetic; a truth value counts as one or zero. -/
def scalar? : Value → Option Scalar
  | .bool b => some (.real (.int b.toNat))
  | .int n => some (.real (.int n))
  | .float x => some (.real (.float x))
  | .complex z => some (.complex z)
  | .object _ content => content.scalar?
  | _ => Option.none

/-- The real number that a value stands for in arithmetic. -/
def number? : Value → Option Number
  | .bool b => some (.int b.toNat)
  | .int n => some (.int n)
  | .float x => some (.float x)
  | .object _ content => content.number?
  | _ => Option.none

/-- The expression that a value is. -/
def expr? : Value → Option Expr
  | .node e => some e
  | .object _ content => content.expr?
  | _ => Option.none

/-- The entries of a value that is a mapping. -/
def entries? : Value → Option (List (Value × Value))
  | .map entries => some entries
  | .object _ content => content.entries?
  | _ => Option.none

/-- The text that a value is. -/
def text? : Value → Option String
  | .text s => some s
  | .object _ content => content.text?
  | _ => Option.none

/-- The value of a number. -/
def ofNumber : Number → Value
  | .int n => .int n
  | .float x => .float x

/-- The value of a scalar. -/
def ofScalar : Scalar → Value
  | .real a => ofNumber a
  | .complex z => .complex z

/-- Whether a value counts as true: not nothing, not a zero, not empty and not undefined. -/
def truthy : Value → Bool
  | .none | .undefined => false
  | .bool b => b
  | .int n => n != 0
  | .float x => !x.isZero
  | .complex z => !z.isZero
  | .text s => !s.isEmpty
  | .list items | .tuple items => !items.isEmpty
  | .map entries => !entries.isEmpty
  | .symbol _ | .node _ | .cell .. => true
  | .object _ content => content.truthy

/-- What going through a value gives one by one: the items of a list or tuple, the characters of a
text, the keys of a mapping. -/
def elements? : Value → Option (List Value)
  | .list items | .tuple items => some items
  | .text s => some (s.toList.map fun c => .text c.toString)
  | .map entries => some (entries.map Prod.fst)
  | .object _ content => content.elements?
  | _ => Option.none

/-- Whether a value is a mapping. -/
def isMap (v : Value) : Bool := v.entries?.isSome

/-- The integer that a value stands for where a count or a place is wanted. -/
def integer? : Value → Option Int
  | .bool b => some b.toNat
  | .int n => some n
  | .object _ content => content.integer?
  | _ => Option.none

mutual

/-- Whether a value may be looked up as a key: lists and mappings may not, nor tuples with one of
these in them. -/
def isHashable : Value → Bool
  | .list _ | .map _ => false
  | .tuple items => allHashable items
  | .object _ content => content.isHashable
  | _ => true

/-- Whether all values of a list may be looked up as keys. -/
def allHashable : List Value → Bool
  | [] => true
  | v :: vs => v.isHashable && allHashable vs

end

/-- The first whole number beyond those of a 64-bit word with a sign. -/
def wordLimit : Int := Nat.pow 2 63

/-- The most items that a sequence can have for there to be room for it. -/
def roomLimit : Int := Nat.pow 2 36

@[simp] theorem bare_bare (v : Value) : v.bare.bare = v.bare := by
  fun_induction bare v with
  | case1 identity content ih => exact ih
  | case2 v h => cases v <;> first | rfl | exact absurd rfl (h _ _)

@[simp] theorem number?_ofNumber (a : Number) : (ofNumber a).number? = some a := by
  cases a <;> rfl

end Value

end Formulary
