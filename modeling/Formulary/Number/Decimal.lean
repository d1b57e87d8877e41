import Formulary.Number.Binary64
import Formulary.Text.Digit

/-!
# Decimal texts of floating-point numbers

A decimal is a coefficient times a power of ten. Reading rounds it to the nearest floating-point
number; writing takes the decimal of fewest digits that reads back as the number, and of those the
nearest one, a tie going to the even coefficient.

How the digits are laid out is one record, `Decimal.Layout`, with the two layouts in use: numbers
standing alone keep a point (`Decimal.alone`), the parts of a complex number do not
(`Decimal.part`).
-/

namespace Formulary

/-- The number `coefficient * 10 ^ exponent`. -/
structure Decimal where
  coefficient : Nat
  exponent : Int
  deriving DecidableEq

namespace Decimal

/-- The number of decimal digits of a natural number; zero has one. -/
def digitCount (n : Nat) : Nat := (Nat.toDigits 10 n).length

/-! ### Reading -/

/-- The decimal written with the given whole and fractional digits and power of ten. -/
def ofDigits (whole fraction : List Char) (exponent : Int) : Decimal where
  coefficient := Text.naturalOf (whole ++ fraction)
  exponent := exponent - fraction.length

/-- The floating-point number nearest to a decimal, with the given sign. Decimals of more than 310
places before the point are beyond every finite number, and those of more than 330 zeros after it
are nearest to zero; neither is multiplied out. -/
def toBinary64 (negative : Bool) (d : Decimal) : Binary64 :=
  let size := digitCount d.coefficient + d.exponent
  if d.coefficient = 0 ∨ size < -330 then .zero negative
  else if size > 310 then .infinite negative
  else if 0 ≤ d.exponent then .ofRatio negative (d.coefficient * Nat.pow 10 d.exponent.toNat) 1
  else .ofRatio negative d.coefficient (Nat.pow 10 (-d.exponent).toNat)

/-! ### The shortest decimal -/

/-- The exponent of the leading decimal digit of a positive number of steps. The shift by 400
places makes every such number a whole one with digits to count. -/
def leadingExponent (magnitude : Nat) : Int :=
  (digitCount (magnitude * Nat.pow 10 400 / Binary64.unit) : Int) - 401

/-- The decimal of at most `digits` digits that reads back as `x`, if there is one. Only the two
neighbours of `x` on the grid of that many digits need be tried. -/
def onGrid? (x : Binary64) (digits : Nat) : Option Decimal :=
  let exponent := leadingExponent x.magnitude + 1 - digits
  let numerator := x.magnitude * Nat.pow 10 (-exponent).toNat
  let denominator := Binary64.unit * Nat.pow 10 exponent.toNat
  let below := numerator / denominator
  let rest := numerator % denominator
  let lower : Decimal := ⟨below, exponent⟩
  let upper : Decimal := ⟨below + 1, exponent⟩
  let lowerHits := lower.toBinary64 x.isNegative = x
  let upperHits := upper.toBinary64 x.isNegative = x
  if lowerHits ∧ upperHits then
    if 2 * rest < denominator ∨ (2 * rest = denominator ∧ below % 2 = 0) then some lower
    else some upper
  else if lowerHits then some lower
  else if upperHits then some upper
  else none

/-- The shortest decimal that reads back as a finite number other than zero. Seventeen digits are
always enough. -/
def shortest (x : Binary64) : Decimal :=
  ((List.range 17).findSome? fun n => onGrid? x (n + 1)).getD ⟨0, 0⟩

/-! ### Writing -/

/-- How the digits of a number are laid out: the exponents of the leading digit that are written
with a plain point, whether whole numbers keep the point, and the least width of a written
exponent. -/
structure Layout where
  positionalFrom : Int
  positionalBelow : Int
  keepsPoint : Bool
  exponentWidth : Nat

/-- Numbers standing alone are positional from four zeros after the point up to sixteen digits
before it, and whole ones keep the point. -/
def alone : Layout := ⟨-4, 16, true, 2⟩

/-- The parts of a complex number are written like numbers alone, but without an idle point. -/
def part : Layout := { alone with keepsPoint := false }

/-- The digits of a decimal without the zeros at their end. -/
def significantDigits (d : Decimal) : List Char :=
  ((Nat.toDigits 10 d.coefficient).reverse.dropWhile (· = '0')).reverse

/-- The exponent of a decimal's leading digit. -/
def leadingPlace (d : Decimal) : Int := digitCount d.coefficient - 1 + d.exponent

/-- The exponent part of a number in scientific layout, signed and padded with zeros. -/
def exponentText (width : Nat) (exponent : Int) : List Char :=
  let digits := Nat.toDigits 10 exponent.natAbs
  'e' :: (if exponent < 0 then '-' else '+') ::
    (List.replicate (width - digits.length) '0' ++ digits)

/-- The text of digits whose first one has the given exponent. -/
def layOut (layout : Layout) (digits : List Char) (exponent : Int) : List Char :=
  if exponent < layout.positionalFrom ∨ layout.positionalBelow ≤ exponent then
    (match digits with
      | first :: second :: rest => first :: '.' :: second :: rest
      | _ => digits) ++ exponentText layout.exponentWidth exponent
  else if exponent < 0 then
    '0' :: '.' :: (List.replicate (-exponent - 1).toNat '0' ++ digits)
  else
    let places := exponent.toNat + 1
    if digits.length ≤ places then
      digits ++ List.replicate (places - digits.length) '0' ++
        (if layout.keepsPoint then ['.', '0'] else [])
    else digits.take places ++ '.' :: digits.drop places

/-- The text of a number in a layout. -/
def write (layout : Layout) (x : Binary64) : List Char :=
  match x with
  | .nan => "nan".toList
  | .infinite negative => (if negative then ['-'] else []) ++ "inf".toList
  | .finite negative _ _ _ =>
    (if negative then ['-'] else []) ++
      (if x.isZero then layOut layout ['0'] 0
      else layOut layout (shortest x).significantDigits (shortest x).leadingPlace)

/-- The number that a text spells: an optional minus, then digits with an optional fraction and an
optional power of ten, or the name of what is not finite. -/
def read? (text : List Char) : Option Binary64 :=
  let (negative, body) := match text with
    | '-' :: rest => (true, rest)
    | _ => (false, text)
  if body = "inf".toList then some (.infinite negative)
  else if body = "nan".toList then some .nan
  else
    let whole := body.takeWhile Text.isDigit
    let afterWhole := body.dropWhile Text.isDigit
    let (fraction, afterFraction) := match afterWhole with
      | '.' :: rest => (rest.takeWhile Text.isDigit, rest.dropWhile Text.isDigit)
      | _ => ([], afterWhole)
    let exponent? : Option Int := match afterFraction with
      | [] => some 0
      | 'e' :: '-' :: digits => some (-(Text.naturalOf digits : Int))
      | 'e' :: '+' :: digits | 'e' :: digits => some (Text.naturalOf digits : Int)
      | _ => none
    exponent?.map fun exponent => (ofDigits whole fraction exponent).toBinary64 negative

end Decimal

/-- The text of a floating-point number standing alone. -/
def Binary64.text (x : Binary64) : String := String.ofList (Decimal.write Decimal.alone x)

end Formulary
