import Formulary.Error
import Formulary.Number.Decimal

/-!
# Numbers

A number is an integer of any size or a floating-point number. Integers stay integers under every
operation but true division and negative powers; as soon as a floating-point number takes part the
integer is rounded to one, and one that is too large is an overflow. Comparison is exact between the
two kinds.
-/

namespace Formulary

/-- An integer of any size or a floating-point number. -/
inductive Number
  | int (n : Int)
  | float (x : Binary64)
  deriving DecidableEq

namespace Number

/-- The floating-point number nearest to a number. -/
def toBinary64 : Number → Except Error Binary64
  | .int n => match Binary64.ofInt? n with
    | some x => pure x
    | none => throw .overflow
  | .float x => pure x

/-- An operation that has its own rule on integers and rounds mixed operands. -/
def combine (onInts : Int → Int → Except Error Number)
    (onFloats : Binary64 → Binary64 → Except Error Number) (a b : Number) :
    Except Error Number :=
  match a, b with
  | .int m, .int n => onInts m n
  | a, b => do onFloats (← a.toBinary64) (← b.toBinary64)

/-! ### Arithmetic -/

/-- The opposite number. -/
def neg : Number → Number
  | .int n => .int (-n)
  | .float x => .float x.neg

/-- The number without its sign. -/
def abs : Number → Number
  | .int n => .int n.natAbs
  | .float x => .float x.abs

/-- The sum of two numbers. -/
def add : Number → Number → Except Error Number :=
  combine (fun m n => pure (.int (m + n))) (fun x y => pure (.float (x.add y)))

/-- The difference of two numbers. -/
def sub : Number → Number → Except Error Number :=
  combine (fun m n => pure (.int (m - n))) (fun x y => pure (.float (x.sub y)))

/-- The product of two numbers. -/
def mul : Number → Number → Except Error Number :=
  combine (fun m n => pure (.int (m * n))) (fun x y => pure (.float (x.mul y)))

/-- The quotient of two integers, exact and rounded once. A zero dividend takes the sign of the
divisor. -/
def divInts (m n : Int) : Except Error Number :=
  if n = 0 then throw .divisionByZero
  else match Binary64.ofRatio ((decide (m < 0)) ^^ (decide (n < 0))) m.natAbs n.natAbs with
    | .infinite _ => throw .overflow
    | x => pure (.float x)

/-- The quotient of two numbers, always a floating-point number. -/
def div : Number → Number → Except Error Number :=
  combine divInts fun x y =>
    if y.isZero then throw .divisionByZero else pure (.float (x.div y))

/-- The remainder of the division that rounds down; it has the sign of the divisor. -/
def mod : Number → Number → Except Error Number :=
  combine (fun m n => if n = 0 then throw .divisionByZero else pure (.int (m.fmod n)))
    fun x y => if y.isZero then throw .divisionByZero else pure (.float (x.modulo y))

/-! ### Comparison -/

/-- How two numbers compare, exactly; a NaN compares with nothing. -/
def compare? : Number → Number → Option Ordering
  | .int m, .int n => some (compare m n)
  | .int m, .float y => (y.compareInt? m).map Ordering.swap
  | .float x, .int n => x.compareInt? n
  | .float x, .float y => x.compare? y

/-- Whether two numbers are equal in value. -/
def equals (a b : Number) : Bool := a.compare? b == some .eq

/-- Whether the first number is below the second. -/
def isBelow (a b : Number) : Bool := a.compare? b == some .lt

/-- Whether the number is a zero. -/
def isZero : Number → Bool
  | .int n => n == 0
  | .float x => x.isZero

/-! ### Whole parts -/

/-- A whole part that only finite numbers have. -/
def wholePart (part : Binary64 → Option Int) : Number → Except Error Int
  | .int n => pure n
  | .float x => match part x with
    | some n => pure n
    | none => throw (if x.isNan then .badValue else .overflow)

/-- The whole part of a number, nearest to zero. -/
def truncate : Number → Except Error Int := wholePart Binary64.truncate?

/-- The greatest integer that is not above a number. -/
def floor : Number → Except Error Int := wholePart Binary64.floor?

/-- The least integer that is not below a number. -/
def ceil : Number → Except Error Int := wholePart Binary64.ceil?

/-- The text of a number. -/
def text : Number → String
  | .int n => toString n
  | .float x => x.text

/-! ### Small facts -/

@[simp] theorem neg_neg (a : Number) : a.neg.neg = a := by
  cases a <;> simp [neg]

@[simp] theorem equals_int (m n : Int) : equals (.int m) (.int n) = decide (m = n) := by
  simp only [equals, compare?]
  rcases Int.lt_trichotomy m n with h | rfl | h
  · have : compare m n = .lt := Int.compare_eq_lt.2 h
    simp [this, Int.ne_of_lt h]
  · simp
  · have : compare m n = .gt := Int.compare_eq_gt.2 h
    simp [this, Int.ne_of_gt h]

end Number

end Formulary
