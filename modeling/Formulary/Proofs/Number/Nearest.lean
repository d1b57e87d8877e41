import Formulary.Number.Rounding
import Mathlib.Algebra.Order.Group.Unbundled.Int
import Mathlib.Algebra.Order.Ring.Abs
import Mathlib.Tactic.Linarith
import Mathlib.Tactic.Ring

/-!
# Rounding to nearest

Of the multiples of a positive number one is nearest to an integer, and of two that are equally near
one is an even multiple; these conditions (`IsNearestEven`) determine the multiple, and rounding
finds it (`isNearestEven_nearestEven`).

A floating-point number is rounded in the same way, to a multiple of the power of two that leaves 53
bits (`Binary64.exponentOf`). So a quotient is rounded to the nearest such multiple, and one that is
then too large becomes infinite (`Binary64.ofStepRatio_cases`).
-/

namespace Formulary

/-! ### Nearest multiples -/

/-- Whether a multiple of a number is as near to an integer as any, and the even one if there are
two such multiples. -/
structure IsNearestEven (a : ℤ) (d : ℕ) (q : ℤ) : Prop where
  near : 2 * |q * d - a| ≤ d
  even : 2 * |q * d - a| = d → q % 2 = 0

namespace IsNearestEven

variable {a q q' : ℤ} {d c : ℕ}

/-- The multiple below an integer, if what is left is less than half or half after an even one. -/
theorem below {r : ℤ} (ha : a = q * d + r) (hr : 0 ≤ r)
    (h : 2 * r < d ∨ 2 * r = d ∧ q % 2 = 0) : IsNearestEven a d q := by
  have hdistance : |q * d - a| = r := by
    rw [ha, sub_add_cancel_left, abs_neg, abs_of_nonneg hr]
  refine ⟨?_, ?_⟩
  · rw [hdistance]
    omega
  · rw [hdistance]
    omega

/-- The multiple above an integer, if what is left is more than half or half after an odd one. -/
theorem above {r : ℤ} (ha : a = q * d + r) (hr : r < d)
    (h : 2 * r > d ∨ 2 * r = d ∧ q % 2 ≠ 0) : IsNearestEven a d (q + 1) := by
  have hdistance : |(q + 1) * d - a| = d - r := by
    rw [ha, show (q + 1) * d - (q * d + r) = d - r by ring, abs_of_nonneg (by omega)]
  refine ⟨?_, ?_⟩
  · rw [hdistance]
    omega
  · rw [hdistance]
    omega

theorem mul_le_add_abs (a k q : ℤ) (d : ℕ) : |k - q| * d ≤ |k * d - a| + |q * d - a| :=
  calc |k - q| * d = |(k * d - a) - (q * d - a)| := by
        rw [sub_sub_sub_cancel_right, ← sub_mul, abs_mul, Nat.abs_cast]
    _ ≤ |k * d - a| + |q * d - a| := abs_sub _ _

/-- No multiple is nearer. -/
theorem le (h : IsNearestEven a d q) (k : ℤ) : |q * d - a| ≤ |k * d - a| := by
  rcases eq_or_ne k q with rfl | hne
  · exact le_rfl
  · have hone : (1 : ℤ) * d ≤ |k - q| * d :=
      mul_le_mul_of_nonneg_right (Int.one_le_abs (sub_ne_zero.mpr hne)) (Int.natCast_nonneg d)
    have hapart := mul_le_add_abs a k q d
    have hnear := h.near
    omega

/-- The multiple is determined. -/
theorem unique (hd : 0 < d) (h : IsNearestEven a d q) (h' : IsNearestEven a d q') : q = q' := by
  by_contra hne
  have hnear := h.near
  have hnear' := h'.near
  have hapart := mul_le_add_abs a q q' d
  -- both are at most half of `d` away, so they are neighbours and the number is in the middle
  have hone : 1 ≤ |q - q'| := Int.one_le_abs (sub_ne_zero.mpr hne)
  have hle : |q - q'| ≤ 1 := by
    refine le_of_mul_le_mul_right (a := (d : ℤ)) ?_ (by omega)
    omega
  have hneighbours : |q - q'| = 1 := le_antisymm hle hone
  rw [hneighbours] at hapart
  have heven := h.even (by omega)
  have heven' := h'.even (by omega)
  rcases (abs_eq zero_le_one).mp hneighbours with hq | hq
  · omega
  · omega

/-- What is a multiple itself is nearest to itself. -/
theorem of_mul (hd : 0 < d) (k : ℤ) : IsNearestEven (k * d) d k :=
  below (r := 0) (add_zero _).symm le_rfl (.inl (by omega))

theorem neg (h : IsNearestEven a d q) : IsNearestEven (-a) d (-q) := by
  have hdistance : |-q * d - -a| = |q * d - a| := by
    rw [neg_mul, neg_sub_neg, abs_sub_comm]
  refine ⟨?_, ?_⟩
  · rw [hdistance]
    exact h.near
  · rw [hdistance]
    intro hhalf
    have := h.even hhalf
    omega

/-- The measure does not matter. -/
theorem mul_iff (hc : 0 < c) : IsNearestEven (a * c) (d * c) q ↔ IsNearestEven a d q := by
  have hc : (0 : ℤ) < c := by omega
  have hdistance : 2 * |q * (d * c : ℕ) - a * c| = 2 * |q * d - a| * c := by
    rw [Nat.cast_mul, ← mul_assoc, ← sub_mul, abs_mul, Nat.abs_cast, mul_assoc]
  constructor
  · intro ⟨hnear, heven⟩
    rw [hdistance, Nat.cast_mul] at hnear heven
    exact ⟨le_of_mul_le_mul_right hnear hc, fun h => heven (by rw [h])⟩
  · intro ⟨hnear, heven⟩
    refine ⟨?_, ?_⟩
    · rw [hdistance, Nat.cast_mul]
      exact mul_le_mul_of_nonneg_right hnear hc.le
    · rw [hdistance, Nat.cast_mul]
      exact fun h => heven (mul_right_cancel₀ hc.ne' h)

end IsNearestEven

/-- **Rounding to nearest** finds the nearest multiple. -/
theorem isNearestEven_nearestEven (a : ℤ) {d : ℕ} (hd : 0 < d) :
    IsNearestEven a d (nearestEven a d) := by
  have hsplit : a = a.fdiv d * d + a.fmod d := by
    rw [mul_comm]
    exact (Int.mul_fdiv_add_fmod a d).symm
  have hnonneg : 0 ≤ a.fmod d := Int.fmod_nonneg_of_pos a (by omega)
  have hlt : a.fmod d < d := Int.fmod_lt_of_pos a (by omega)
  rw [nearestEven]
  split
  · exact .below hsplit hnonneg ‹_›
  · exact .above hsplit hlt (by omega)

/-- The same on naturals, as a quotient is rounded from its whole part and its remainder. -/
theorem isNearestEven_div (a : ℕ) {d : ℕ} (hd : 0 < d) : IsNearestEven a d
    (if 2 * (a % d) > d ∨ (2 * (a % d) = d ∧ a / d % 2 = 1) then a / d + 1 else a / d : ℕ) := by
  have hsplit : (a : ℤ) = (a / d : ℕ) * d + (a % d : ℕ) := by
    exact_mod_cast (Nat.div_add_mod' a d).symm
  have hlt := Nat.mod_lt a hd
  split
  · rw [Nat.cast_add_one]
    exact .above hsplit (by omega) (by omega)
  · exact .below hsplit (by omega) (by omega)

/-! ### Rounding a quotient to a significand -/

namespace Binary64

theorem unit_eq : unit = 2 ^ 1074 := by
  unfold unit
  generalize 1074 = k
  rfl

theorem unit_pos : 0 < unit := by
  rw [unit_eq]
  exact pow_pos two_pos _

/-- The exponent that leaves 53 bits of a quotient. -/
def exponentOf (a b : ℕ) : ℕ := (a / b).log2 + 1 - 53

/-- What the exponent leaves of a quotient has at most 53 bits, and all of them unless the exponent
is the least one. -/
theorem div_lt_two_pow (a b : ℕ) : a / (b * 2 ^ exponentOf a b) < 2 ^ 53 ∧
    (2 ^ 52 ≤ a / (b * 2 ^ exponentOf a b) ∨ exponentOf a b = 0) := by
  rw [← Nat.div_div_eq_div_mul, exponentOf]
  generalize a / b = quotient
  rcases Nat.lt_or_ge quotient.log2 52 with h | h
  · -- a small quotient stays as it is
    have hexponent : quotient.log2 + 1 - 53 = 0 := by omega
    rw [hexponent, Nat.pow_zero, Nat.div_one]
    refine ⟨?_, .inr rfl⟩
    calc quotient < 2 ^ (quotient.log2 + 1) := Nat.lt_log2_self
      _ ≤ 2 ^ 53 := Nat.pow_le_pow_right (by decide) (by omega)
  · have hne : quotient ≠ 0 := by
      rintro rfl
      simp at h
    have hpos : 0 < 2 ^ (quotient.log2 + 1 - 53) := Nat.two_pow_pos _
    refine ⟨(Nat.div_lt_iff_lt_mul hpos).mpr ?_, .inl ((Nat.le_div_iff_mul_le hpos).mpr ?_)⟩
    · rw [← Nat.pow_add, show 53 + (quotient.log2 + 1 - 53) = quotient.log2 + 1 by omega]
      exact Nat.lt_log2_self
    · rw [← Nat.pow_add, show 52 + (quotient.log2 + 1 - 53) = quotient.log2 by omega]
      exact Nat.log2_self_le hne

/-- The place of a rounded significand: with one bit too many it is a power of two. -/
def placeOf (rounded exponent : ℕ) : ℕ × ℕ :=
  if rounded = 2 ^ 53 then (2 ^ 52, exponent + 1) else (rounded, exponent)

theorem mul_two_pow_placeOf (rounded exponent : ℕ) :
    (placeOf rounded exponent).1 * 2 ^ (placeOf rounded exponent).2 = rounded * 2 ^ exponent := by
  rw [placeOf]
  split
  · next h =>
    show 2 ^ 52 * 2 ^ (exponent + 1) = rounded * 2 ^ exponent
    rw [h, ← Nat.pow_add, ← Nat.pow_add]
    congr 1
    omega
  · rfl

/-- A rounded significand has a canonical place just if its number is not too large. -/
theorem canonical_placeOf_iff {rounded exponent : ℕ} (hmost : rounded ≤ 2 ^ 53)
    (hleast : 2 ^ 52 ≤ rounded ∨ exponent = 0) :
    Canonical (placeOf rounded exponent).1 (placeOf rounded exponent).2 ↔
      rounded * 2 ^ exponent < 2 ^ 2098 := by
  -- rounding up may carry into the next exponent
  rw [placeOf]
  split
  · next h =>
    rw [h, ← Nat.pow_add, Nat.pow_lt_pow_iff_right (by decide)]
    constructor
    · rintro ⟨-, hexponent, -⟩
      have hexponent : exponent + 1 ≤ 2045 := hexponent
      omega
    · intro hexponent
      have hexponent : exponent + 1 ≤ 2045 := by omega
      exact ⟨show 2 ^ 52 < 2 ^ 53 by decide, hexponent, .inl (Nat.le_refl (2 ^ 52))⟩
  · next h =>
    have hlt : rounded < 2 ^ 53 := Nat.lt_of_le_of_ne hmost h
    constructor
    · rintro ⟨-, hexponent, -⟩
      have hexponent : exponent ≤ 2045 := hexponent
      have hstep : rounded * 2 ^ exponent < 2 ^ 53 * 2 ^ exponent :=
        Nat.mul_lt_mul_of_pos_right hlt (Nat.two_pow_pos _)
      rw [← Nat.pow_add] at hstep
      have hbound : 53 + exponent ≤ 2098 := by omega
      exact hstep.trans_le (pow_le_pow_right₀ one_le_two hbound)
    · intro hvalue
      refine ⟨hlt, ?_, hleast⟩
      by_contra hexponent
      have hexponent : 2046 ≤ exponent := Nat.lt_of_not_le hexponent
      have hstep : 2 ^ 52 * 2 ^ exponent ≤ rounded * 2 ^ exponent :=
        Nat.mul_le_mul_right _ (hleast.resolve_right (by omega))
      rw [← pow_add] at hstep
      have hbound : 2098 ≤ 52 + exponent := by omega
      exact absurd hvalue (Nat.not_lt_of_le ((pow_le_pow_right₀ one_le_two hbound).trans hstep))

/-- **A quotient of steps is rounded to nearest**, to 53 bits at most and halves to even. What is
then too large becomes infinite. -/
theorem ofStepRatio_cases (negative : Bool) (a : ℕ) {b : ℕ} (hb : 0 < b) :
    ∃ q : ℕ, IsNearestEven a (b * 2 ^ exponentOf a b : ℕ) q ∧
      (q * 2 ^ exponentOf a b < 2 ^ 2098 → ∃ significand exponent canonical,
        ofStepRatio negative a b = .finite negative significand exponent canonical ∧
          significand * 2 ^ exponent = q * 2 ^ exponentOf a b) ∧
      (2 ^ 2098 ≤ q * 2 ^ exponentOf a b → ofStepRatio negative a b = .infinite negative) := by
  obtain ⟨hmost, hleast⟩ := div_lt_two_pow a b
  refine ⟨_, isNearestEven_div a (Nat.mul_pos hb (Nat.two_pow_pos _)), ?_⟩
  generalize hscale : b * 2 ^ exponentOf a b = scale at hmost hleast ⊢
  generalize hq : (if 2 * (a % scale) > scale ∨ (2 * (a % scale) = scale ∧ a / scale % 2 = 1)
    then a / scale + 1 else a / scale) = q
  have hplace : ofStepRatio negative a b =
      if canonical : Canonical (placeOf q (exponentOf a b)).1 (placeOf q (exponentOf a b)).2 then
        .finite negative _ _ canonical
      else .infinite negative := by
    rw [← hq, ← hscale]
    rfl
  -- the quotient has at most 53 bits, and rounding adds one at most
  have hbounds : q ≤ 2 ^ 53 ∧ (2 ^ 52 ≤ q ∨ exponentOf a b = 0) := by
    rw [← hq]
    split
    · omega
    · omega
  have hcanonical := canonical_placeOf_iff hbounds.1 hbounds.2
  rw [hplace]
  constructor
  · intro hvalue
    rw [dif_pos (hcanonical.mpr hvalue)]
    exact ⟨_, _, _, rfl, mul_two_pow_placeOf q (exponentOf a b)⟩
  · intro hvalue
    rw [dif_neg fun h => absurd (hcanonical.mp h) (Nat.not_lt_of_le hvalue)]

end Binary64

end Formulary
