import Formulary.Number.Basic

/-!
# Rounding to decimal places

Rounding takes the nearest multiple of a power of ten, and of two equally near ones the multiple by
an even number. A floating-point number is rounded from its exact value, so the only error is that
of writing the decimal result as a floating-point number again.

An integer is already rounded to any number of places (`roundTo_int_of_nonneg`).
-/

namespace Formulary

/-- The integer nearest to the quotient of an integer and a positive number; a half goes to the
even neighbour. -/
def nearestEven (numerator : Int) (denominator : Nat) : Int :=
  let below := numerator.fdiv denominator
  let rest := 2 * numerator.fmod denominator
  if rest < denominator ∨ (rest = denominator ∧ below % 2 = 0) then below else below + 1

namespace Binary64

/-- Beyond this many places every number is rounded already. -/
def mostPlaces : Int := 323

/-- Below this many places every number rounds to zero. -/
def leastPlaces : Int := -308

/-- The whole number nearest to a number; a half goes to the even neighbour. -/
def round? : Binary64 → Option Int
  | x@(.finite _ _ _ _) => some (nearestEven x.steps unit)
  | _ => none

/-- A number rounded to the given number of places after the point. -/
def roundTo (x : Binary64) (places : Int) : Binary64 :=
  match x with
  | .finite negative _ _ _ =>
    if places > mostPlaces then x
    else if places < leastPlaces then zero negative
    else
      let up := Nat.pow 10 places.toNat
      let down := Nat.pow 10 (-places).toNat
      let whole := nearestEven (x.magnitude * up) (unit * down)
      ofRatio negative (whole.natAbs * down) up
  | _ => x

end Binary64

namespace Number

/-- The whole number nearest to a number; a half goes to the even neighbour. -/
def round : Number → Except Error Int := wholePart Binary64.round?

/-- A number rounded to the given number of places after the point, or before it if negative. -/
def roundTo (a : Number) (places : Int) : Except Error Number :=
  match a with
  | .int n =>
    if 0 ≤ places then pure (.int n)
    else
      let scale := Nat.pow 10 (-places).toNat
      pure (.int (nearestEven n scale * scale))
  | .float x =>
    let rounded := x.roundTo places
    if rounded.isInfinite && !x.isInfinite then throw .overflow else pure (.float rounded)

theorem roundTo_int_of_nonneg {n places : Int} (h : 0 ≤ places) :
    roundTo (.int n) places = .ok (.int n) := by
  simp [roundTo, h, pure, Except.pure]

end Number

end Formulary
