import Formulary.Number.Binary64

/-!
# The distance of a point from the origin

The length of a hypotenuse is the square root of the sum of two squares, which as it stands would
lose its last bit now and then, and all of them where a square is too large or too small for a
floating-point number. So the root is corrected once by the error of its square, and legs far from
one are scaled by a power of two before and after, which is exact. A leg that is too short against
the other one to change the root is only added to it.
-/

namespace Formulary.Binary64

/-- Whether the first number is at most as large as the second; false if one is a NaN. -/
def atMost (x y : Binary64) : Bool :=
  match x.compare? y with
  | some .lt | some .eq => true
  | _ => false

/-- A power of two with a negative exponent. -/
def twoToMinus (n : Nat) : Binary64 := ofRatio false 1 (Nat.pow 2 n)

/-- The number two. -/
def two : Binary64 := one.add one

/-- The root of the sum of the squares of two legs, the longer one first, corrected by the error of
its square divided by twice the root. The error is written in the difference of the root and the
leg that it is closer to. -/
def correctedRoot (long short : Binary64) : Binary64 :=
  let root := apply Float.sqrt ((long.mul long).add (short.mul short))
  let error :=
    if root.atMost (two.mul short) then
      let excess := root.sub short
      (long.mul ((two.mul excess).sub long)).add
        ((excess.sub (two.mul (long.sub short))).mul excess)
    else
      let excess := root.sub long
      ((two.mul excess).mul (long.sub (two.mul short))).add
        ((((two.mul two).mul excess).sub short).mul short |>.add (excess.mul excess))
  root.sub (error.div (two.mul root))

/-- How far legs are scaled toward one. -/
def legScale : Binary64 := twoToMinus 600

/-- How long a leg is against the other one to change the root at all. -/
def leastLeg : Binary64 := twoToMinus 54

/-- The hypotenuse of two finite legs that are not negative, the longer one first. -/
def hypotenuseOrdered (long short : Binary64) : Binary64 :=
  if !long.atMost (one.div (twoToMinus 511)) then
    if short.atMost (long.mul leastLeg) then long.add short
    else (correctedRoot (long.mul legScale) (short.mul legScale)).div legScale
  else if !(twoToMinus 459).atMost short then
    if (short.div leastLeg).atMost long then long.add short
    else (correctedRoot (long.div legScale) (short.div legScale)).mul legScale
  else if short.atMost (long.mul leastLeg) then long.add short
  else correctedRoot long short

/-- The hypotenuse of two legs. An infinite leg makes it infinite, whatever the other one is. -/
def hypotenuse (x y : Binary64) : Binary64 :=
  if x.isInfinite || y.isInfinite then .infinite false
  else if x.isNan || y.isNan then .nan
  else if x.abs.atMost y.abs then hypotenuseOrdered y.abs x.abs
  else hypotenuseOrdered x.abs y.abs

end Formulary.Binary64
