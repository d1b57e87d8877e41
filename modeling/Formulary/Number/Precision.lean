import Formulary.Number.Rounding

/-!
# Decimal texts with a given precision

A precision says how many digits of a magnitude are written: those after the point (`fixed`), those
after the leading digit, with a power of ten behind (`scientific`), or all of them, in whichever of
the two ways is the shorter to read (`general`). The magnitude is rounded once, from its exact
value, and of two equally near decimals the even one is taken.

The sign is not written here, and what is not finite has no digits to write.
-/

namespace Formulary

/-- The ways to write the digits of a magnitude. -/
inductive DecimalForm
  | fixed
  | scientific
  | general
  deriving DecidableEq, Repr

namespace Decimal

/-- Digits with zeros before them, up to the least number of digits. -/
def padded (least : Nat) (digits : List Char) : List Char :=
  List.replicate (least - digits.length) '0' ++ digits

/-- The whole digits and the fraction. A point with nothing behind it is dropped unless kept. -/
def pointed (keepsPoint : Bool) (whole fraction : List Char) : List Char :=
  if fraction.isEmpty && !keepsPoint then whole else whole ++ '.' :: fraction

/-- A magnitude as a number of units of a decimal place, rounded. -/
def inPlaces (x : Binary64) (places : Int) : Nat :=
  (nearestEven (x.magnitude * Nat.pow 10 places.toNat)
    (Binary64.unit * Nat.pow 10 (-places).toNat)).toNat

/-- The leading digits of a magnitude, rounded to their number, and the exponent of the first one.
Rounding up from nines alone gives one digit more, a zero, and moves the exponent. -/
def leadingDigits (count : Nat) (x : Binary64) : List Char × Int :=
  if x.isZero then (List.replicate count '0', 0)
  else
    let exponent := leadingExponent x.magnitude
    let digits := Nat.toDigits 10 (inPlaces x (count - 1 - exponent))
    if digits.length > count then (digits.dropLast, exponent + 1) else (digits, exponent)

/-- A magnitude with so many places after the point. -/
def fixed (keepsPoint : Bool) (precision : Nat) (x : Binary64) : List Char :=
  let digits := padded (precision + 1) (Nat.toDigits 10 (inPlaces x precision))
  pointed keepsPoint (digits.take (digits.length - precision))
    (digits.drop (digits.length - precision))

/-- A magnitude with so many digits after the leading one, and its power of ten. -/
def scientific (keepsPoint : Bool) (precision : Nat) (x : Binary64) : List Char :=
  let (digits, exponent) := leadingDigits (precision + 1) x
  pointed keepsPoint (digits.take 1) (digits.drop 1) ++ exponentText 2 exponent

/-- A magnitude with so many digits in all, and at least one; positional from four zeros after the
point up to these digits before it. Zeros at the end of a fraction go with an idle point. -/
def general (keepsPoint : Bool) (precision : Nat) (x : Binary64) : List Char :=
  let count := max 1 precision
  let (digits, exponent) := leadingDigits count x
  let kept := if keepsPoint then digits else (digits.reverse.dropWhile (· = '0')).reverse
  if exponent < -4 ∨ count ≤ exponent then
    pointed keepsPoint (kept.take 1) (kept.drop 1) ++ exponentText 2 exponent
  else if exponent < 0 then
    pointed keepsPoint ['0'] (List.replicate (-exponent - 1).toNat '0' ++ kept)
  else
    let places := exponent.toNat + 1
    pointed keepsPoint (digits.take places) (kept.drop places)

/-- A magnitude written in one of the forms. -/
def writeIn : DecimalForm → Bool → Nat → Binary64 → List Char
  | .fixed => fixed
  | .scientific => scientific
  | .general => general

@[simp] theorem length_padded (least : Nat) (digits : List Char) :
    (padded least digits).length = max least digits.length := by
  simp only [padded, List.length_append, List.length_replicate]
  omega

end Decimal

end Formulary
