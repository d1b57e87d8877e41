import Formulary.Number.Basic
import Formulary.Number.Hypotenuse

/-!
# Complex numbers and powers

A negative number to a power that is not whole is a complex number, so the results of arithmetic
are scalars: real or complex. A complex operand makes the whole operation complex. Powers with a
small whole exponent are repeated products, the others use the polar form.

The order of the tests in `powFloats` is the order in which the special cases of a floating-point
power take precedence.
-/

namespace Formulary

/-- A complex number with floating-point parts. -/
structure Complex where
  re : Binary64
  im : Binary64
  deriving DecidableEq

/-- A real or a complex number. -/
inductive Scalar
  | real (a : Number)
  | complex (z : Complex)
  deriving DecidableEq

namespace Complex

/-- The complex number one. -/
def one : Complex := ⟨.one, .zero false⟩

/-- Whether both parts are zero. -/
def isZero (z : Complex) : Bool := z.re.isZero && z.im.isZero

/-- The opposite number. -/
def neg (z : Complex) : Complex := ⟨z.re.neg, z.im.neg⟩

/-- The sum of two numbers. -/
def add (z w : Complex) : Complex := ⟨z.re.add w.re, z.im.add w.im⟩

/-- The difference of two numbers. -/
def sub (z w : Complex) : Complex := ⟨z.re.sub w.re, z.im.sub w.im⟩

/-- The product of two numbers. -/
def mul (z w : Complex) : Complex :=
  ⟨(z.re.mul w.re).sub (z.im.mul w.im), (z.re.mul w.im).add (z.im.mul w.re)⟩

/-- The quotient of two numbers, scaled by the divisor's larger part. -/
def div (z w : Complex) : Except Error Complex :=
  if w.isZero then throw .divisionByZero
  else if w.im.abs.atMost w.re.abs then
    let ratio := w.im.div w.re
    let scale := w.re.add (w.im.mul ratio)
    pure ⟨(z.re.add (z.im.mul ratio)).div scale, (z.im.sub (z.re.mul ratio)).div scale⟩
  else if w.re.abs.atMost w.im.abs then
    let ratio := w.re.div w.im
    let scale := (w.re.mul ratio).add w.im
    pure ⟨((z.re.mul ratio).add z.im).div scale, ((z.im.mul ratio).sub z.re).div scale⟩
  else pure ⟨.nan, .nan⟩

/-! ### Powers -/

/-- The product of `result` and the `n`-th power of `base`, by repeated squaring. -/
def powNat (result base : Complex) (n : Nat) : Complex :=
  if h : n = 0 then result
  else powNat (if n % 2 = 1 then result.mul base else result) (base.mul base) (n / 2)
termination_by n
decreasing_by omega

/-- The distance from zero. -/
def modulus (z : Complex) : Binary64 := z.re.hypotenuse z.im

/-- A power by way of the polar form: the length and the angle of the base give those of the power.
An angle that is infinite points nowhere, which counts as a division by zero like a power of zero
that is negative or complex. -/
def powPolar (z w : Complex) : Except Error Complex :=
  if w.isZero then pure one
  else if z.isZero then
    if !w.im.isZero || w.re.isNegative then throw .divisionByZero
    else pure ⟨.zero false, .zero false⟩
  else
    let length := Binary64.apply₂ Float.pow z.modulus w.re
    let angle := Binary64.apply₂ Float.atan2 z.im z.re
    let turned := angle.mul w.re
    let (length, turned) :=
      if w.im.isZero then (length, turned)
      else (length.div (Binary64.apply Float.exp (angle.mul w.im)),
        turned.add (w.im.mul (Binary64.apply Float.log z.modulus)))
    if turned.isInfinite then throw .divisionByZero
    else pure ⟨length.mul (Binary64.apply Float.cos turned),
      length.mul (Binary64.apply Float.sin turned)⟩

/-- The greatest whole exponent for which a power is a repeated product. -/
def productLimit : Int := 100

/-- A complex power; an infinite part is an overflow. -/
def pow (z w : Complex) : Except Error Complex := do
  let power ←
    match if w.im.isZero && w.re.isWhole then w.re.truncate? else none with
    | some n =>
      if n.natAbs ≤ productLimit then
        if 0 < n then pure (powNat one z n.toNat) else one.div (powNat one z n.natAbs)
      else powPolar z w
    | none => powPolar z w
  if power.re.isInfinite || power.im.isInfinite then throw .overflow else pure power

/-- The text of a complex number: the imaginary part alone if the real one is a positive zero. -/
def text (z : Complex) : String :=
  let imaginary := Decimal.write Decimal.part z.im
  String.ofList <|
    if z.re = .zero false then imaginary ++ ['j']
    else
      '(' :: (Decimal.write Decimal.part z.re ++ (if z.im.isNegative then [] else ['+']) ++
        imaginary ++ ['j', ')'])

end Complex

/-! ### Powers of real numbers -/

/-- The power of two floating-point numbers. -/
def powFloats (x y : Binary64) : Except Error Scalar :=
  let real := fun z => pure (Scalar.real (.float z))
  if y.isZero then real .one
  else if x.isNan then real x
  else if y.isNan then real (if x = .one then .one else y)
  else if y.isInfinite then
    match x.abs.compare? .one with
    | some .gt => real (if y.isNegative then .zero false else .infinite false)
    | some .lt => real (if y.isNegative then .infinite false else .zero false)
    | _ => real .one
  else if x.isInfinite then
    if y.isNegative then real (.zero (x.isNegative && y.isOdd))
    else real (if y.isOdd then x else x.abs)
  else if x.isZero then
    if y.isNegative then throw .divisionByZero
    else real (if y.isOdd then x else .zero false)
  else if x.isNegative && !y.isWhole then
    (Complex.pow ⟨x, .zero false⟩ ⟨y, .zero false⟩).map .complex
  else
    let negative := x.isNegative && y.isOdd
    if x.abs = .one then real (Binary64.one.withSign negative)
    else
      let power := Binary64.apply₂ Float.pow x.abs y
      if power.isInfinite then throw .overflow else real (power.withSign negative)

/-- The power of an integer. The powers of one, zero and minus one are found without multiplying,
however large the exponent is. -/
def intPower (m : Int) (n : Nat) : Int :=
  if 1 < m.natAbs then m.pow n
  else if n = 0 then 1
  else if n % 2 = 0 then m * m
  else m

theorem intPower_eq (m : Int) (n : Nat) : intPower m n = m.pow n := by
  have negative :
      Int.pow (-1) n = if n % 2 = 0 then (Nat.pow 1 n : Int) else -(Nat.pow 1 n : Int) := rfl
  have positive : Int.pow 1 n = (Nat.pow 1 n : Int) := rfl
  have one : Nat.pow 1 n = 1 := Nat.one_pow n
  rw [one] at negative positive
  have small : m.natAbs ≤ 1 → m = 0 ∨ m = 1 ∨ m = -1 := by omega
  rw [intPower]
  split
  · rfl
  · next h =>
    rcases small (by omega) with rfl | rfl | rfl
    · cases n <;> simp [Int.pow]
    · rw [positive]
      split <;> simp
    · rw [negative]
      split
      · next hn => simp [hn]
      · split <;> rfl

/-- The power of two numbers; a negative power of an integer is a floating-point one. -/
def Number.pow : Number → Number → Except Error Scalar
  | .int m, .int n =>
    if 0 ≤ n then pure (.real (.int (intPower m n.toNat)))
    else do powFloats (← (Number.int m).toBinary64) (← (Number.int n).toBinary64)
  | a, b => do powFloats (← a.toBinary64) (← b.toBinary64)

namespace Scalar

/-- The complex number equal to a scalar. -/
def toComplex : Scalar → Except Error Complex
  | .real a => do pure ⟨← a.toBinary64, .zero false⟩
  | .complex z => pure z

/-- An operation that is complex as soon as one operand is. -/
def combine (onReals : Number → Number → Except Error Scalar)
    (onComplex : Complex → Complex → Except Error Complex) (a b : Scalar) :
    Except Error Scalar :=
  match a, b with
  | .real a, .real b => onReals a b
  | a, b => do return .complex (← onComplex (← a.toComplex) (← b.toComplex))

/-- The opposite scalar. -/
def neg : Scalar → Scalar
  | .real a => .real a.neg
  | .complex z => .complex z.neg

/-- The sum of two scalars. -/
def add : Scalar → Scalar → Except Error Scalar :=
  combine (fun a b => (a.add b).map .real) fun z w => pure (z.add w)

/-- The difference of two scalars. -/
def sub : Scalar → Scalar → Except Error Scalar :=
  combine (fun a b => (a.sub b).map .real) fun z w => pure (z.sub w)

/-- The product of two scalars. -/
def mul : Scalar → Scalar → Except Error Scalar :=
  combine (fun a b => (a.mul b).map .real) fun z w => pure (z.mul w)

/-- The quotient of two scalars. -/
def div : Scalar → Scalar → Except Error Scalar :=
  combine (fun a b => (a.div b).map .real) Complex.div

/-- The remainder of two scalars, which complex numbers do not have. -/
def mod : Scalar → Scalar → Except Error Scalar
  | .real a, .real b => (a.mod b).map .real
  | _, _ => throw .wrongType

/-- The power of two scalars. -/
def pow : Scalar → Scalar → Except Error Scalar := combine Number.pow Complex.pow

/-- Whether two scalars are equal in value; a real one equals a complex one without imaginary
part. -/
def equals : Scalar → Scalar → Bool
  | .real a, .real b => a.equals b
  | .real a, .complex z | .complex z, .real a => z.im.isZero && a.equals (.float z.re)
  | .complex z, .complex w =>
    (Number.float z.re).equals (.float w.re) && (Number.float z.im).equals (.float w.im)

/-- How two scalars compare, which complex numbers do not. -/
def compare? : Scalar → Scalar → Except Error (Option Ordering)
  | .real a, .real b => pure (a.compare? b)
  | _, _ => throw .wrongType

/-- Whether a scalar is a zero. -/
def isZero : Scalar → Bool
  | .real a => a.isZero
  | .complex z => z.isZero

/-- The text of a scalar. -/
def text : Scalar → String
  | .real a => a.text
  | .complex z => z.text

end Scalar

end Formulary
