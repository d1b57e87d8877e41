/-!
# Floating-point numbers with a 53-bit significand

A number here is a NaN, an infinity of either sign, or a signed significand times a power of two.
The exponent counts from the least one, so a finite magnitude is `significand * 2 ^ exponent` steps
of `2 ^ (-1074)`, and every finite number is an integer number of those steps. All arithmetic is
done exactly on the step counts and rounded once, by `Binary64.ofRatio`: to nearest, ties to the
even significand, and to an infinity where no significand is large enough.

The main small facts: negating twice gives the number back (`neg_neg`), negation changes the sign of
the step count (`steps_neg`), and a number without steps is a zero (`isZero_iff`).
-/

namespace Formulary

/-- The one representation kept for each magnitude: the significand has at most 53 bits, and has
all of them unless the exponent is already the least. -/
def Binary64.Canonical (significand exponent : Nat) : Prop :=
  significand < Nat.pow 2 53 ∧ exponent ≤ 2045 ∧ (Nat.pow 2 52 ≤ significand ∨ exponent = 0)

instance (significand exponent : Nat) : Decidable (Binary64.Canonical significand exponent) :=
  inferInstanceAs (Decidable (_ ∧ _ ∧ _))

/-- A floating-point number. The finite magnitude is `significand * 2 ^ exponent` steps of
`2 ^ (-1074)`; both zeros have significand and exponent zero. -/
inductive Binary64
  | nan
  | infinite (negative : Bool)
  | finite (negative : Bool) (significand exponent : Nat)
      (canonical : Binary64.Canonical significand exponent)
  deriving DecidableEq

namespace Binary64

/-! ### Constants, signs and classes -/

/-- The number of steps in one. -/
def unit : Nat := Nat.pow 2 1074

/-- The zero of the given sign. -/
def zero (negative : Bool) : Binary64 := .finite negative 0 0 (by decide)

/-- The number one. -/
def one : Binary64 := .finite false (Nat.pow 2 52) 1022 (by decide)

/-- Whether the sign bit is set; a NaN carries none. -/
def isNegative : Binary64 → Bool
  | .nan => false
  | .infinite negative => negative
  | .finite negative _ _ _ => negative

/-- Whether the number is a NaN. -/
def isNan : Binary64 → Bool
  | .nan => true
  | _ => false

/-- Whether the number is an infinity. -/
def isInfinite : Binary64 → Bool
  | .infinite _ => true
  | _ => false

/-- Whether the number is a zero of either sign. -/
def isZero : Binary64 → Bool
  | .finite _ significand _ _ => significand == 0
  | _ => false

/-- The opposite number; a NaN stays one. -/
def neg : Binary64 → Binary64
  | .nan => .nan
  | .infinite negative => .infinite !negative
  | .finite negative significand exponent canonical =>
    .finite (!negative) significand exponent canonical

/-- The number without its sign. -/
def abs : Binary64 → Binary64
  | .nan => .nan
  | .infinite _ => .infinite false
  | .finite _ significand exponent canonical => .finite false significand exponent canonical

/-- The number with the given sign; a NaN has none to set. -/
def withSign (negative : Bool) (x : Binary64) : Binary64 :=
  if negative then x.abs.neg else x.abs

/-- The magnitude in steps; what is not finite has no steps. -/
def magnitude : Binary64 → Nat
  | .finite _ significand exponent _ => significand * Nat.pow 2 exponent
  | _ => 0

/-- The signed number of steps; what is not finite has no steps. -/
def steps (x : Binary64) : Int :=
  if x.isNegative then -(x.magnitude : Int) else x.magnitude

/-! ### Rounding -/

/-- The number nearest to `numerator / denominator` steps, with the given sign. The significand
takes the quotient's leading 53 bits, a half goes to the even significand, and what then has no
canonical place lies beyond the largest finite number. -/
def ofStepRatio (negative : Bool) (numerator denominator : Nat) : Binary64 :=
  let exponent := (numerator / denominator).log2 + 1 - 53
  let scale := denominator * Nat.pow 2 exponent
  let kept := numerator / scale
  let rest := numerator % scale
  let rounded := if 2 * rest > scale ∨ (2 * rest = scale ∧ kept % 2 = 1) then kept + 1 else kept
  let place := if rounded = Nat.pow 2 53 then (Nat.pow 2 52, exponent + 1) else (rounded, exponent)
  if canonical : Canonical place.1 place.2 then .finite negative place.1 place.2 canonical
  else .infinite negative

/-- The number nearest to the quotient of two naturals, with the given sign. -/
def ofRatio (negative : Bool) (numerator denominator : Nat) : Binary64 :=
  ofStepRatio negative (numerator * unit) denominator

/-- The number nearest to an integer, or nothing if it lies beyond the largest finite number. -/
def ofInt? (n : Int) : Option Binary64 :=
  match ofRatio (n < 0) n.natAbs 1 with
  | .infinite _ => none
  | x => some x

/-! ### Arithmetic -/

/-- The sum of two numbers. Two finite numbers that cancel give a positive zero, unless both are
negative zeros. -/
def add : Binary64 → Binary64 → Binary64
  | .nan, _ | _, .nan => .nan
  | .infinite a, .infinite b => if a = b then .infinite a else .nan
  | .infinite a, _ => .infinite a
  | _, .infinite b => .infinite b
  | x@(.finite a _ _ _), y@(.finite b _ _ _) =>
    let total := x.steps + y.steps
    ofStepRatio (total < 0 ∨ (total = 0 ∧ a ∧ b)) total.natAbs 1

/-- The difference of two numbers. -/
def sub (x y : Binary64) : Binary64 := x.add y.neg

/-- The product of two numbers. -/
def mul : Binary64 → Binary64 → Binary64
  | .nan, _ | _, .nan => .nan
  | .infinite a, y => if y.isZero then .nan else .infinite (a ^^ y.isNegative)
  | x, .infinite b => if x.isZero then .nan else .infinite (x.isNegative ^^ b)
  | x@(.finite a _ _ _), y@(.finite b _ _ _) =>
    ofStepRatio (a ^^ b) (x.magnitude * y.magnitude) unit

/-- The quotient of two numbers. Divided by a zero, all but a zero or NaN is infinite. -/
def div : Binary64 → Binary64 → Binary64
  | .nan, _ | _, .nan => .nan
  | .infinite a, y => if y.isInfinite then .nan else .infinite (a ^^ y.isNegative)
  | x, .infinite b => zero (x.isNegative ^^ b)
  | x@(.finite a _ _ _), y@(.finite b _ _ _) =>
    if y.isZero then (if x.isZero then .nan else .infinite (a ^^ b))
    else ofRatio (a ^^ b) x.magnitude y.magnitude

/-- The remainder of the division that rounds toward zero: it has the sign of the dividend. -/
def remainder : Binary64 → Binary64 → Binary64
  | .nan, _ | _, .nan => .nan
  | .infinite _, _ => .nan
  | x, .infinite _ => x
  | x@(.finite a _ _ _), y@(.finite _ _ _ _) =>
    if y.isZero then .nan else ofStepRatio a (x.magnitude % y.magnitude) 1

/-- The remainder of the division that rounds down: it has the sign of the divisor, a zero
included. -/
def modulo (x y : Binary64) : Binary64 :=
  let r := x.remainder y
  if r.isZero then zero y.isNegative
  else if r.isNan then r
  else if r.isNegative ≠ y.isNegative then r.add y
  else r

/-- How two numbers compare; a NaN compares with nothing. -/
def compare? : Binary64 → Binary64 → Option Ordering
  | .nan, _ | _, .nan => none
  | .infinite a, .infinite b =>
    some (if a = b then .eq else if a then .lt else .gt)
  | .infinite a, _ => some (if a then .lt else .gt)
  | _, .infinite b => some (if b then .gt else .lt)
  | x, y => some (compare x.steps y.steps)

/-- How a number compares with an integer, exactly. -/
def compareInt? (x : Binary64) (n : Int) : Option Ordering :=
  match x with
  | .nan => none
  | .infinite a => some (if a then .lt else .gt)
  | x => some (compare x.steps (n * unit))

/-! ### Whole numbers -/

/-- The whole part, nearest to zero; nothing for what is not finite. -/
def truncate? : Binary64 → Option Int
  | x@(.finite _ _ _ _) => some (x.steps.tdiv unit)
  | _ => none

/-- The greatest integer that is not above the number; nothing for what is not finite. -/
def floor? : Binary64 → Option Int
  | x@(.finite _ _ _ _) => some (x.steps.fdiv unit)
  | _ => none

/-- The least integer that is not below the number; nothing for what is not finite. -/
def ceil? : Binary64 → Option Int
  | x@(.finite _ _ _ _) => some (-((-x.steps).fdiv unit))
  | _ => none

/-- Whether the number is a whole one. -/
def isWhole : Binary64 → Bool
  | x@(.finite _ _ _ _) => x.magnitude % unit == 0
  | _ => false

/-- Whether the number is a whole one that two does not divide. -/
def isOdd : Binary64 → Bool
  | x@(.finite _ _ _ _) => x.magnitude % (2 * unit) == unit
  | _ => false

/-! ### The machine's representation -/

/-- The 64-bit word of the number: the sign, the biased exponent and the fraction. -/
def toBits : Binary64 → UInt64
  | .nan => 0x7FF8000000000000
  | .infinite negative => if negative then 0xFFF0000000000000 else 0x7FF0000000000000
  | .finite negative significand exponent _ =>
    UInt64.ofNat ((if negative then Nat.pow 2 63 else 0) + exponent * Nat.pow 2 52 + significand)

/-- The number that a 64-bit word stands for. -/
def ofBits (word : UInt64) : Binary64 :=
  let negative := word.toNat ≥ Nat.pow 2 63
  let exponent := word.toNat / Nat.pow 2 52 % Nat.pow 2 11
  let fraction := word.toNat % Nat.pow 2 52
  if exponent = 2047 then
    if fraction = 0 then .infinite negative else .nan
  else if exponent = 0 then ofStepRatio negative fraction 1
  else ofStepRatio negative ((Nat.pow 2 52 + fraction) * Nat.pow 2 (exponent - 1)) 1

/-- The machine number of the same value. -/
def toFloat (x : Binary64) : Float := Float.ofBits x.toBits

/-- The number of the same value as a machine number. -/
def ofFloat (x : Float) : Binary64 := ofBits x.toBits

/-- A function of the machine's library on one number. -/
def apply (f : Float → Float) (x : Binary64) : Binary64 := ofFloat (f x.toFloat)

/-- A function of the machine's library on two numbers. -/
def apply₂ (f : Float → Float → Float) (x y : Binary64) : Binary64 :=
  ofFloat (f x.toFloat y.toFloat)

/-! ### Small facts -/

@[simp] theorem neg_neg (x : Binary64) : x.neg.neg = x := by
  cases x <;> simp [neg]

@[simp] theorem magnitude_neg (x : Binary64) : x.neg.magnitude = x.magnitude := by
  cases x <;> rfl

@[simp] theorem steps_neg (x : Binary64) : x.neg.steps = -x.steps := by
  cases x with
  | nan => rfl
  | infinite negative => cases negative <;> rfl
  | finite negative significand exponent canonical =>
    cases negative <;> simp [steps, neg, isNegative, magnitude]

theorem isZero_iff {negative : Bool} {significand exponent : Nat}
    {canonical : Canonical significand exponent} :
    (finite negative significand exponent canonical).isZero = true ↔ significand = 0 := by
  simp [isZero]

end Binary64

end Formulary
