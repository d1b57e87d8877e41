import Formulary.Number.Precision
import Formulary.Proofs.Number.Nearest

/-!
# As many digits as the precision says

In a text with a fixed number of places these stand after the point, and the digits are those of the
nearest number of units of the last place (`exists_fixed_eq`, `isNearestEven_inPlaces`). The leading
digits of a finite number are as many as were asked for (`length_leadingDigits`): scaled to that
many digits before the point, the magnitude lies between two powers of ten, and where rounding comes
to the upper one the digit too many is dropped. So a text in scientific form has one digit before
the point and as many as the precision after it (`exists_scientific_eq`).
-/

namespace Formulary

namespace IsNearestEven

variable {a q k : ℤ} {d : ℕ}

/-- Rounding does not fall below a multiple that is not above. -/
theorem le_of_mul_le (hd : 0 < d) (h : IsNearestEven a d q) (hk : k * d ≤ a) : k ≤ q := by
  by_contra hlt
  have hstep : (q + 1) * d ≤ k * d := Int.mul_le_mul_of_nonneg_right (by omega) (by omega)
  have hnear := h.near
  rw [abs_sub_comm, abs_of_nonneg (by linarith)] at hnear
  linarith [show (0 : ℤ) < d by omega]

theorem nonneg (hd : 0 < d) (h : IsNearestEven a d q) (ha : 0 ≤ a) : 0 ≤ q :=
  h.le_of_mul_le hd (by rwa [zero_mul])

/-- Rounding does not rise above a multiple that is not below. -/
theorem le_of_le_mul (hd : 0 < d) (h : IsNearestEven a d q) (hk : a ≤ k * d) : q ≤ k := by
  have hneg := h.neg.le_of_mul_le hd (k := -k) (by linarith)
  omega

end IsNearestEven

namespace Decimal

open Binary64 (unit unit_pos)

/-! ### Places after the point -/

/-- A magnitude in units of a place is the nearest number of them, a half going to the even one. -/
theorem isNearestEven_inPlaces (x : Binary64) (places : ℤ) :
    IsNearestEven (x.magnitude * 10 ^ places.toNat : ℕ) (unit * 10 ^ (-places).toNat)
      (inPlaces x places) := by
  have hpos : 0 < unit * 10 ^ (-places).toNat := Nat.mul_pos unit_pos (Nat.pow_pos (by decide))
  have hnear := isNearestEven_nearestEven (x.magnitude * 10 ^ places.toNat : ℕ) hpos
  have hnonneg := hnear.nonneg hpos (Int.natCast_nonneg _)
  rw [inPlaces, Nat.pow_eq, Nat.pow_eq, ← Nat.cast_mul, Int.toNat_of_nonneg hnonneg]
  exact hnear

theorem pointed_of_ne_nil (keepsPoint : Bool) (whole : List Char) {fraction : List Char}
    (h : fraction ≠ []) : pointed keepsPoint whole fraction = whole ++ '.' :: fraction := by
  rw [pointed, if_neg (by simp [h])]

/-- **A fixed number of places**: as many digits stand after the point, and at least one before. -/
theorem exists_fixed_eq (keepsPoint : Bool) {precision : ℕ} (hprecision : 0 < precision)
    (x : Binary64) : ∃ whole fraction, fixed keepsPoint precision x = whole ++ '.' :: fraction ∧
      whole ≠ [] ∧ fraction.length = precision := by
  have hlength := length_padded (precision + 1) (Nat.toDigits 10 (inPlaces x precision))
  rw [fixed]
  generalize padded (precision + 1) (Nat.toDigits 10 (inPlaces x precision)) = digits at hlength ⊢
  have hfraction : (digits.drop (digits.length - precision)).length = precision := by
    rw [List.length_drop]
    omega
  refine ⟨digits.take (digits.length - precision), _, pointed_of_ne_nil _ _ ?_, ?_, hfraction⟩
  · exact List.ne_nil_of_length_pos (by omega)
  · refine List.ne_nil_of_length_pos ?_
    rw [List.length_take]
    omega

/-! ### Leading digits -/

theorem digitCount_pos (n : ℕ) : 0 < digitCount n := Nat.length_toDigits_pos

theorem lt_ten_pow_digitCount (n : ℕ) : n < 10 ^ digitCount n :=
  (Nat.length_toDigits_le_iff (by decide) (digitCount_pos n)).mp (Nat.le_refl _)

theorem ten_pow_pred_digitCount_le {n : ℕ} (hn : 0 < n) : 10 ^ (digitCount n - 1) ≤ n := by
  rcases Nat.lt_or_ge 1 (digitCount n) with h | h
  · by_contra hlt
    have hshort := (Nat.length_toDigits_le_iff (b := 10) (k := digitCount n - 1) (by decide)
      (by omega)).mpr (Nat.lt_of_not_le hlt)
    rw [digitCount] at h hshort
    omega
  · rw [show digitCount n - 1 = 0 by omega, Nat.pow_zero]
    exact hn

/-- A magnitude that has some digits before the point when scaled up lies, scaled to fewer or more
of them, between the powers of ten for these. -/
theorem le_scaled_le {magnitude unit shift digits count up down : ℕ} (hunit : 0 < unit)
    (hdigits : 0 < digits) (hcount : 0 < count)
    (hleast : 10 ^ (digits - 1) ≤ magnitude * 10 ^ shift / unit)
    (hmost : magnitude * 10 ^ shift / unit < 10 ^ digits)
    (hscale : digits + up = count + shift + down) :
    10 ^ (count - 1) * (unit * 10 ^ down) ≤ magnitude * 10 ^ up ∧
      magnitude * 10 ^ up ≤ 10 ^ count * (unit * 10 ^ down) := by
  have hpos : 0 < 10 ^ shift := Nat.pow_pos (by decide)
  rw [Nat.le_div_iff_mul_le hunit] at hleast
  rw [Nat.div_lt_iff_lt_mul hunit] at hmost
  constructor
  · refine Nat.le_of_mul_le_mul_right ?_ hpos
    calc 10 ^ (count - 1) * (unit * 10 ^ down) * 10 ^ shift
        = unit * 10 ^ (count - 1 + down + shift) := by ring
      _ = unit * 10 ^ (digits - 1 + up) := by
        rw [show count - 1 + down + shift = digits - 1 + up by omega]
      _ = 10 ^ (digits - 1) * unit * 10 ^ up := by ring
      _ ≤ magnitude * 10 ^ shift * 10 ^ up := Nat.mul_le_mul_right _ hleast
      _ = magnitude * 10 ^ up * 10 ^ shift := by ring
  · refine Nat.le_of_mul_le_mul_right ?_ hpos
    calc magnitude * 10 ^ up * 10 ^ shift = magnitude * 10 ^ shift * 10 ^ up := by ring
      _ ≤ 10 ^ digits * unit * 10 ^ up := Nat.mul_le_mul_right _ hmost.le
      _ = unit * 10 ^ (digits + up) := by ring
      _ = unit * 10 ^ (count + shift + down) := by rw [hscale]
      _ = 10 ^ count * (unit * 10 ^ down) * 10 ^ shift := by ring

/-- The leading digit is found where every magnitude is shifted to have digits before the point. -/
theorem exists_leadingExponent_eq (magnitude : ℕ) : ∃ shift, unit ≤ 10 ^ shift ∧
    leadingExponent magnitude =
      (digitCount (magnitude * 10 ^ shift / unit) : ℤ) - (shift + 1 : ℕ) := by
  refine ⟨400, ?_, ?_⟩
  · rw [Binary64.unit_eq]
    generalize hbits : 1074 = bits
    generalize hshift : 400 = shift
    calc 2 ^ bits ≤ 2 ^ (3 * shift) := Nat.pow_le_pow_right (by decide) (by omega)
      _ = (2 ^ 3) ^ shift := pow_mul 2 3 shift
      _ ≤ 10 ^ shift := Nat.pow_le_pow_left (by decide) shift
  · rw [leadingExponent]
    generalize hshift : 400 = shift
    rw [Nat.pow_eq]
    omega

/-- Rounded to a number of digits, a magnitude has as many, or is the next power of ten. -/
theorem inPlaces_leadingExponent {x : Binary64} (hx : 0 < x.magnitude) {count : ℕ}
    (hcount : 0 < count) :
    10 ^ (count - 1) ≤ inPlaces x (count - 1 - leadingExponent x.magnitude) ∧
      inPlaces x (count - 1 - leadingExponent x.magnitude) ≤ 10 ^ count := by
  obtain ⟨shift, hshift, hexponent⟩ := exists_leadingExponent_eq x.magnitude
  have hscaled : 0 < x.magnitude * 10 ^ shift / unit :=
    Nat.div_pos (hshift.trans (Nat.le_mul_of_pos_left _ hx)) unit_pos
  have hdigits := digitCount_pos (x.magnitude * 10 ^ shift / unit)
  have hleast := ten_pow_pred_digitCount_le hscaled
  have hmost := lt_ten_pow_digitCount (x.magnitude * 10 ^ shift / unit)
  rw [hexponent]
  generalize digitCount (x.magnitude * 10 ^ shift / unit) = digits at hdigits hleast hmost ⊢
  generalize hplaces : (count : ℤ) - 1 - ((digits : ℤ) - (shift + 1 : ℕ)) = places
  have hscale : digits + places.toNat = count + shift + (-places).toNat := by omega
  obtain ⟨hlower, hupper⟩ := le_scaled_le unit_pos hdigits hcount hleast hmost hscale
  have hpos : 0 < unit * 10 ^ (-places).toNat := Nat.mul_pos unit_pos (Nat.pow_pos (by decide))
  have hnear := isNearestEven_inPlaces x places
  have hfrom := hnear.le_of_mul_le (k := (10 ^ (count - 1) : ℕ)) hpos (by exact_mod_cast hlower)
  have hto := hnear.le_of_le_mul (k := (10 ^ count : ℕ)) hpos (by exact_mod_cast hupper)
  exact ⟨by exact_mod_cast hfrom, by exact_mod_cast hto⟩

section

variable {negative : Bool} {significand exponent : ℕ}
  {canonical : Binary64.Canonical significand exponent}

/-- **As many leading digits as asked for**, of every finite number. -/
theorem length_leadingDigits {count : ℕ} (hcount : 0 < count) :
    (leadingDigits count (.finite negative significand exponent canonical)).1.length = count := by
  rw [leadingDigits]
  split
  · exact List.length_replicate
  · next hzero =>
    have hmagnitude : 0 < (Binary64.finite negative significand exponent canonical).magnitude := by
      rw [Binary64.isZero_iff] at hzero
      exact Nat.mul_pos (Nat.pos_of_ne_zero hzero) (Nat.pow_pos (by decide))
    dsimp only
    obtain ⟨hleast, hmost⟩ := inPlaces_leadingExponent hmagnitude hcount
    generalize inPlaces _ _ = rounded at hleast hmost ⊢
    have hlength (k : ℕ) (hk : 0 < k) : (Nat.toDigits 10 rounded).length ≤ k ↔ rounded < 10 ^ k :=
      Nat.length_toDigits_le_iff (by decide) hk
    have hatLeast : count ≤ (Nat.toDigits 10 rounded).length := by
      by_contra hshort
      have hshort : (Nat.toDigits 10 rounded).length ≤ count - 1 := by omega
      rcases Nat.eq_zero_or_pos (count - 1) with hone | hone
      · have hsome : 0 < (Nat.toDigits 10 rounded).length := Nat.length_toDigits_pos
        omega
      · exact absurd ((hlength _ hone).mp hshort) (Nat.not_lt_of_le hleast)
    have hatMost : (Nat.toDigits 10 rounded).length ≤ count + 1 :=
      (hlength _ (Nat.succ_pos _)).mpr
        (Nat.lt_of_le_of_lt hmost (Nat.pow_lt_pow_right (by decide) (Nat.lt_succ_self _)))
    split
    · rw [List.length_dropLast]
      omega
    · dsimp only
      omega

/-- **The scientific form**: one digit stands before the point and as many as the precision after
it. -/
theorem exists_scientific_eq (keepsPoint : Bool) (precision : ℕ) : ∃ first fraction place,
    scientific keepsPoint precision (.finite negative significand exponent canonical) =
      pointed keepsPoint [first] fraction ++ exponentText 2 place ∧
    fraction.length = precision := by
  have hlength :=
    @length_leadingDigits negative significand exponent canonical _ (Nat.add_one_pos precision)
  rw [scientific]
  generalize leadingDigits (precision + 1) _ = leading at hlength ⊢
  obtain ⟨_ | ⟨first, fraction⟩, place⟩ := leading
  · cases hlength
  · exact ⟨first, fraction, place, rfl, Nat.succ.inj hlength⟩

end

end Decimal

end Formulary
