import Formulary.Proofs.Function.Texts
import Formulary.Proofs.Number.Nearest

/-!
# Rounding whole numbers

Rounding to whole numbers should leave integers alone. `ROUND` does. Rounding up and down divide the
scaled magnitude by the scale again, also where the scale is one, and a quotient of integers is a
floating-point number. So they leave alone the integers of at most 53 significant bits
(`IsSignificant`) that are not too large for one; any other integer comes out as the nearest of
these (`nearestSignificant`), if that is not too large (`Builtin.apply_round_int`).
-/

namespace Formulary

/-! ### Integers of 53 significant bits -/

/-- Whether an integer has at most 53 significant bits. -/
def IsSignificant (n : ℤ) : Prop := ∃ (k : ℤ) (e : ℕ), k.natAbs < 2 ^ 53 ∧ n = k * 2 ^ e

/-- How far integers with 53 significant bits are apart at an integer. -/
def spacing (n : ℤ) : ℕ := 2 ^ (n.natAbs.log2 - 52)

/-- The nearest integer with at most 53 significant bits; a half goes to the even one. -/
def nearestSignificant (n : ℤ) : ℤ := nearestEven n (spacing n) * spacing n

variable {n m : ℤ}

theorem spacing_pos (n : ℤ) : 0 < spacing n := Nat.two_pow_pos _

theorem isNearestEven_spacing (n : ℤ) :
    IsNearestEven n (spacing n) (nearestEven n (spacing n)) :=
  isNearestEven_nearestEven n (spacing_pos n)

theorem natAbs_lt_mul_spacing (n : ℤ) : n.natAbs < 2 ^ 53 * spacing n := by
  rw [spacing, ← pow_add]
  exact Nat.lt_log2_self.trans_le (pow_le_pow_right₀ one_le_two (by omega))

theorem mul_spacing_le (h : 52 < n.natAbs.log2) : 2 ^ 52 * spacing n ≤ n.natAbs := by
  have hne : n.natAbs ≠ 0 := by
    intro hzero
    simp [hzero] at h
  rw [spacing, ← pow_add, show 52 + (n.natAbs.log2 - 52) = n.natAbs.log2 by omega]
  exact Nat.log2_self_le hne

theorem nearestSignificant_neg (n : ℤ) : nearestSignificant (-n) = -nearestSignificant n := by
  have hspacing : spacing (-n) = spacing n := by rw [spacing, Int.natAbs_neg, spacing]
  have h := isNearestEven_spacing (-n)
  rw [hspacing] at h
  rw [nearestSignificant, hspacing, nearestSignificant,
    h.unique (spacing_pos n) (isNearestEven_spacing n).neg, neg_mul]

theorem nearestSignificant_eq_ite (n : ℤ) : nearestSignificant n =
    if n < 0 then -nearestSignificant n.natAbs else nearestSignificant n.natAbs := by
  split
  · rw [← nearestSignificant_neg, Int.ofNat_natAbs_of_nonpos (by omega), neg_neg]
  · rw [Int.natAbs_of_nonneg (by omega)]

theorem natAbs_nearestSignificant (n : ℤ) :
    (nearestSignificant n).natAbs = (nearestSignificant n.natAbs).natAbs := by
  rw [nearestSignificant_eq_ite n]
  split
  · rw [Int.natAbs_neg]
  · rfl

/-- The nearest one has 53 significant bits at most. -/
theorem isSignificant_nearestSignificant (n : ℤ) : IsSignificant (nearestSignificant n) := by
  rw [nearestSignificant]
  have hnear := (isNearestEven_spacing n).near
  generalize nearestEven n (spacing n) = q at hnear
  have hmost : |q| ≤ 2 ^ 53 := by
    have hlt : |n| < 2 ^ 53 * spacing n := by
      rw [Int.abs_eq_natAbs]
      exact_mod_cast natAbs_lt_mul_spacing n
    have htriangle : |q| * spacing n ≤ |q * spacing n - n| + |n| := by
      rw [← Nat.abs_cast (spacing n), ← abs_mul, Nat.abs_cast]
      simpa using abs_add_le (q * spacing n - n) n
    by_contra hbeyond
    have hstep : (2 ^ 53 + 1) * (spacing n : ℤ) ≤ |q| * spacing n :=
      mul_le_mul_of_nonneg_right (by omega) (Int.natCast_nonneg _)
    omega
  rw [Int.abs_eq_natAbs] at hmost
  rcases hmost.lt_or_eq with hlt | heq
  · exact ⟨q, n.natAbs.log2 - 52, by omega, by rw [spacing, Nat.cast_pow, Nat.cast_ofNat]⟩
  · -- one bit too many, but only the first one is set
    refine ⟨q / 2, n.natAbs.log2 - 52 + 1, by omega, ?_⟩
    have hhalves : q / 2 * 2 = q := by omega
    rw [spacing, Nat.cast_pow, Nat.cast_ofNat, pow_succ', ← mul_assoc, hhalves]

/-- What is nearer to zero than a bound is no nearer to a number beyond the bound than the bound
itself, on the number's side. -/
theorem exists_abs_sub_le {b k n : ℤ} (hk : |k| ≤ b) (hn : b ≤ |n|) :
    ∃ σ : ℤ, |σ * b - n| ≤ |k - n| := by
  simp only [Int.abs_eq_natAbs] at hk hn ⊢
  rcases le_total 0 n with hsign | hsign
  · exact ⟨1, by omega⟩
  · exact ⟨-1, by omega⟩

/-- No other one is nearer. -/
theorem nearestSignificant_le (n : ℤ) (hm : IsSignificant m) :
    |nearestSignificant n - n| ≤ |m - n| := by
  obtain ⟨k, e, hk, rfl⟩ := hm
  have hnearest := (isNearestEven_spacing n).le
  rcases Nat.lt_or_ge e (n.natAbs.log2 - 52) with he | he
  · -- it is shorter than the number, which lies beyond a multiple of the spacing of its length
    have hspacing : 2 ^ e * 2 ≤ spacing n := by
      rw [spacing, ← pow_succ]
      exact pow_le_pow_right₀ one_le_two he
    have hshort : |k * 2 ^ e| ≤ 2 ^ 52 * spacing n :=
      calc |k * 2 ^ e| = |k| * 2 ^ e := by rw [abs_mul, abs_pow, abs_two]
        _ ≤ 2 ^ 53 * 2 ^ e :=
          mul_le_mul_of_nonneg_right (by rw [Int.abs_eq_natAbs]; omega) (by positivity)
        _ = 2 ^ 52 * (2 ^ e * 2 : ℕ) := by push_cast; ring
        _ ≤ 2 ^ 52 * spacing n :=
          mul_le_mul_of_nonneg_left (Int.ofNat_le.mpr hspacing) (by norm_num)
    have hlong : 2 ^ 52 * (spacing n : ℤ) ≤ |n| := by
      rw [Int.abs_eq_natAbs]
      exact_mod_cast mul_spacing_le (show 52 < n.natAbs.log2 by omega)
    obtain ⟨σ, hσ⟩ := exists_abs_sub_le hshort hlong
    rw [← mul_assoc] at hσ
    exact (hnearest (σ * 2 ^ 52)).trans hσ
  · have hmultiple : k * 2 ^ e = k * 2 ^ (e - (n.natAbs.log2 - 52)) * spacing n := by
      rw [spacing, Nat.cast_pow, Nat.cast_ofNat, mul_assoc, ← pow_add, Nat.sub_add_cancel he]
    rw [hmultiple]
    exact hnearest _

theorem nearestSignificant_eq_self_iff : nearestSignificant n = n ↔ IsSignificant n := by
  constructor
  · intro h
    rw [← h]
    exact isSignificant_nearestSignificant n
  · intro h
    have hzero := nearestSignificant_le n h
    rw [sub_self, abs_zero] at hzero
    exact sub_eq_zero.mp (abs_nonpos_iff.mp hzero)

/-- Every integer of 53 bits is one of them. -/
theorem nearestSignificant_of_natAbs_le (h : n.natAbs ≤ 2 ^ 53) : nearestSignificant n = n := by
  refine nearestSignificant_eq_self_iff.mpr ?_
  rcases h.lt_or_eq with hlt | heq
  · exact ⟨n, 0, hlt, by rw [pow_zero, mul_one]⟩
  · exact ⟨n / 2, 1, by omega, by omega⟩

/-! ### A quotient by one -/

namespace Binary64

theorem log2_mul_two_pow {a : ℕ} (ha : a ≠ 0) (k : ℕ) : (a * 2 ^ k).log2 = a.log2 + k := by
  rw [Nat.log2_eq_iff (Nat.mul_ne_zero ha (Nat.two_pow_pos k).ne')]
  constructor
  · rw [pow_add]
    exact Nat.mul_le_mul_right _ (Nat.log2_self_le ha)
  · rw [Nat.add_right_comm, pow_add]
    exact Nat.mul_lt_mul_of_pos_right Nat.lt_log2_self (Nat.two_pow_pos k)

theorem exponentOf_mul_unit {a : ℕ} (ha : a ≠ 0) : exponentOf (a * unit) 1 = a.log2 + 1022 := by
  rw [exponentOf, Nat.div_one, unit_eq, log2_mul_two_pow ha]
  omega

/-- Nothing but zeros is cut off the steps of a short integer. -/
theorem two_pow_exponentOf_dvd {a : ℕ} (h : a.log2 ≤ 52) :
    2 ^ exponentOf (a * unit) 1 ∣ a * unit := by
  rcases eq_or_ne a 0 with rfl | hne
  · rw [zero_mul]
    exact dvd_zero _
  · rw [exponentOf_mul_unit hne, unit_eq]
    exact (pow_dvd_pow 2 (by omega)).mul_left a

/-- The steps of an integer are rounded as the integer is. -/
theorem mul_two_pow_exponentOf {a q : ℕ} (h : IsNearestEven (a * unit : ℕ)
    (1 * 2 ^ exponentOf (a * unit) 1 : ℕ) q) :
    ((q * 2 ^ exponentOf (a * unit) 1 : ℕ) : ℤ) = nearestSignificant a * unit := by
  rw [one_mul] at h
  -- more than 53 bits are rounded to the spacing; fewer are exact
  rcases Nat.lt_or_ge 52 a.log2 with hlog | hlog
  · have hne : a ≠ 0 := by
      rintro rfl
      simp at hlog
    have hscale : 2 ^ exponentOf (a * unit) 1 = spacing a * unit := by
      rw [exponentOf_mul_unit hne, spacing, unit_eq, ← pow_add, Int.natAbs_natCast]
      congr 1
      omega
    rw [hscale, Nat.cast_mul, IsNearestEven.mul_iff unit_pos] at h
    rw [hscale, Nat.cast_mul, Nat.cast_mul, ← mul_assoc,
      h.unique (spacing_pos a) (isNearestEven_spacing a), nearestSignificant]
  · have hpos : 0 < 2 ^ exponentOf (a * unit) 1 := Nat.two_pow_pos _
    obtain ⟨c, hc⟩ := two_pow_exponentOf_dvd hlog
    generalize 2 ^ exponentOf (a * unit) 1 = scale at h hpos hc ⊢
    rw [mul_comm scale] at hc
    have hexact : IsNearestEven (a * unit : ℕ) scale c := by
      rw [hc, Nat.cast_mul]
      exact .of_mul hpos c
    have hshort : (a : ℤ).natAbs ≤ 2 ^ 53 := by
      rw [Int.natAbs_natCast]
      exact Nat.lt_log2_self.le.trans (pow_le_pow_right₀ one_le_two (by omega))
    rw [Int.natCast_inj.mp (h.unique hpos hexact), ← hc, nearestSignificant_of_natAbs_le hshort,
      Nat.cast_mul]

theorem truncate?_of_steps {negative : Bool} {significand exponent : ℕ}
    {canonical : Canonical significand exponent} {k : ℤ}
    (h : (finite negative significand exponent canonical).steps = k * unit) :
    (finite negative significand exponent canonical).truncate? = some k := by
  rw [truncate?, h, Int.mul_tdiv_cancel _ (Int.natCast_ne_zero.mpr unit_pos.ne')]

end Binary64

namespace Number

open Binary64

theorem isBelow_int (m n : ℤ) : (Number.int m).isBelow (.int n) = decide (m < n) := by
  rw [isBelow, compare?, Bool.eq_iff_iff, beq_iff_eq, decide_eq_true_iff, Option.some_inj,
    Int.compare_eq_lt]

theorem ofRatio_sign (a : ℕ) : ofRatio ((decide ((a : ℤ) < 0)) ^^ (decide ((1 : ℤ) < 0)))
    (a : ℤ).natAbs (1 : ℤ).natAbs = ofStepRatio false (a * unit) 1 := by
  have hsign : ((decide ((a : ℤ) < 0)) ^^ (decide ((1 : ℤ) < 0))) = false := by simp
  rw [hsign, Int.natAbs_natCast, Int.natAbs_one, ofRatio]

theorem div_one_eq {a : ℕ} {x : Binary64} (h : ofStepRatio false (a * unit) 1 = x) :
    (Number.int a).div (.int 1) =
      if x.isInfinite then .error .overflow else .ok (.float x) := by
  show divInts a 1 = _
  rw [divInts, if_neg Int.one_ne_zero, ofRatio_sign, h]
  cases x with
  | nan | infinite | finite => rfl

/-- An integer divided by one is the nearest integer of 53 significant bits, if that is not too
large. -/
theorem div_one (a : ℕ) :
    ((nearestSignificant a).natAbs < 2 ^ 1024 → ∃ x : Binary64,
      (Number.int a).div (.int 1) = .ok (.float x) ∧
      x.truncate? = some (nearestSignificant a) ∧
      x.neg.truncate? = some (-nearestSignificant a)) ∧
    (2 ^ 1024 ≤ (nearestSignificant a).natAbs →
      (Number.int a).div (.int 1) = .error .overflow) := by
  obtain ⟨q, hq, hfinite, hinfinite⟩ := ofStepRatio_cases false (a * unit) Nat.one_pos
  have hsteps := mul_two_pow_exponentOf hq
  have hmost : 2 ^ 2098 = 2 ^ 1024 * unit := by rw [unit_eq, ← pow_add]
  have hbound : q * 2 ^ exponentOf (a * unit) 1 = (nearestSignificant a).natAbs * unit := by
    rw [← Int.natAbs_natCast (_ * _), hsteps, Int.natAbs_mul, Int.natAbs_natCast]
  rw [hbound, hmost] at hfinite hinfinite
  constructor
  · intro hsmall
    obtain ⟨significand, exponent, canonical, hvalue, hmagnitude⟩ :=
      hfinite (Nat.mul_lt_mul_of_pos_right hsmall unit_pos)
    have hcount : (finite false significand exponent canonical).steps =
        nearestSignificant a * unit := by
      rw [← hsteps, hbound, ← hmagnitude]
      rfl
    refine ⟨_, div_one_eq hvalue, truncate?_of_steps hcount, truncate?_of_steps ?_⟩
    rw [neg_mul, ← hcount]
    exact steps_neg (finite false significand exponent canonical)
  · intro hlarge
    exact div_one_eq (hinfinite (Nat.mul_le_mul_right _ hlarge))

end Number

namespace Builtin

variable {whole : Number → Except Error ℤ} {function : String} {v places : Value}

theorem roundBy_eq {a factor scaled : Number} {p k : ℤ} {quotient : Except Error Number}
    (ha : oneNumber function v = .ok a) (hplaces : oneInteger function places = .ok p)
    (hscale : scale p = .ok factor) (hscaled : a.abs.mul factor = .ok scaled)
    (hwhole : whole scaled = .ok k) (hquotient : (Number.int k).div factor = quotient) :
    roundBy whole function v places = (do
      let magnitude ← quotient
      let rounded := if a.isBelow (.int 0) then magnitude.neg else magnitude
      if p ≤ 0 then return .int (← rounded.truncate) else return rounded) := by
  simp only [roundBy, ha, hplaces, hscale, hscaled, hwhole, hquotient, bind, Except.bind]

/-- Scaling by no places, an integer passes through a quotient by one. -/
theorem roundBy_int (hwhole : ∀ m, whole (.int m) = .ok m) (n : ℤ) :
    roundBy whole function (.int n) (.int 0) =
      if (nearestSignificant n).natAbs < 2 ^ 1024 then .ok (.int (nearestSignificant n))
      else .error .overflow := by
  have hnumber : oneNumber function (.int n) = .ok (.int n) := rfl
  have hscale : scale 0 = .ok (.int 1) := rfl
  have hscaled : (Number.int n).abs.mul (.int 1) = .ok (.int n.natAbs) := by
    show Except.ok (Number.int (n.natAbs * 1)) = _
    rw [mul_one]
  obtain ⟨hsmall, hlarge⟩ := Number.div_one n.natAbs
  rw [← natAbs_nearestSignificant] at hsmall hlarge
  by_cases h : (nearestSignificant n).natAbs < 2 ^ 1024
  · obtain ⟨x, hx, htruncate, htruncate_neg⟩ := hsmall h
    -- the quotient gets back the sign of the number, and is whole already
    have hcut : (if (Number.int n).isBelow (.int 0) then (Number.float x).neg
        else .float x).truncate = .ok (nearestSignificant n) := by
      rw [nearestSignificant_eq_ite]
      simp only [Number.isBelow_int, decide_eq_true_iff]
      split
      · rw [Number.neg, Number.truncate, Number.wholePart, htruncate_neg]
        rfl
      · rw [Number.truncate, Number.wholePart, htruncate]
        rfl
    rw [roundBy_eq hnumber (oneInteger_int function 0) hscale hscaled (hwhole _) hx, if_pos h]
    simp only [bind, Except.bind, hcut, le_refl, if_true]
    rfl
  · rw [roundBy_eq hnumber (oneInteger_int function 0) hscale hscaled (hwhole _)
      (hlarge (Nat.le_of_not_lt h)), if_neg h]
    rfl

theorem map_roundBy_int (hwhole : ∀ m, whole (.int m) = .ok m) (function : String) (n : ℤ) :
    (roundBy whole function (.int n) (.int 0)).map Value.ofNumber =
      if (nearestSignificant n).natAbs < 2 ^ 1024 then .ok (.int (nearestSignificant n))
      else .error .overflow := by
  rw [roundBy_int hwhole, apply_ite (Except.map Value.ofNumber)]
  rfl

/-- **Rounding whole numbers.** For every integer, with the places left out or none, `ROUND` gives
the integer. Rounding up and rounding down give the nearest integer of 53 significant bits, which is
the integer itself just if it has no more, or overflow if that is too large. -/
theorem apply_round_int {n : ℤ} {args : List Value}
    (hargs : args = [.int n] ∨ args = [.int n, .int 0]) :
    Builtin.round.apply args = .ok (.int n) ∧
    ∀ b ∈ [Builtin.roundUp, Builtin.roundDown],
      b.apply args = (if (nearestSignificant n).natAbs < 2 ^ 1024 then
        .ok (.int (nearestSignificant n)) else .error .overflow) ∧
      (b.apply args = .ok (.int n) ↔ IsSignificant n ∧ n.natAbs < 2 ^ 1024) ∧
      IsSignificant (nearestSignificant n) ∧
      ∀ m, IsSignificant m → |nearestSignificant n - n| ≤ |m - n| := by
  have hround : Builtin.round.apply args = .ok (.int n) := by
    rcases hargs with rfl | rfl
    · rfl
    · rfl
  refine ⟨hround, fun b hb => ?_⟩
  have hvalue : b.apply args = if (nearestSignificant n).natAbs < 2 ^ 1024 then
      .ok (.int (nearestSignificant n)) else .error .overflow := by
    have hup := map_roundBy_int (fun _ => rfl : ∀ m, Number.ceil (.int m) = .ok m) "ROUNDUP" n
    have hdown := map_roundBy_int (fun _ => rfl : ∀ m, Number.floor (.int m) = .ok m) "ROUNDDOWN" n
    simp only [List.mem_cons, List.not_mem_nil, or_false] at hb
    rcases hb with rfl | rfl
    · rcases hargs with rfl | rfl
      · exact hup
      · exact hup
    · rcases hargs with rfl | rfl
      · exact hdown
      · exact hdown
  refine ⟨hvalue, ?_, isSignificant_nearestSignificant n, fun m => nearestSignificant_le n⟩
  rw [hvalue]
  constructor
  · intro h
    split at h
    · next hbound =>
      have hself : nearestSignificant n = n := by
        injection h with h
        injection h
      rw [hself] at hbound
      exact ⟨nearestSignificant_eq_self_iff.mp hself, hbound⟩
    · cases h
  · rintro ⟨hsignificant, hbound⟩
    rw [nearestSignificant_eq_self_iff.mpr hsignificant, if_pos hbound]

/-- The power of two of 54 bits is one of them, the number after it is not. -/
theorem apply_roundUp_two_pow_add_one :
    ([.int (2 ^ 53 + 1)] = [Value.int (2 ^ 53 + 1)] ∨
      [.int (2 ^ 53 + 1)] = [Value.int (2 ^ 53 + 1), .int 0]) ∧
    Builtin.roundUp.apply [.int (2 ^ 53 + 1)] = .ok (.int (2 ^ 53)) := by
  refine ⟨.inl rfl, ?_⟩
  rw [((apply_round_int (.inl rfl)).2 .roundUp (by decide)).1, if_pos (by decide +kernel)]
  rfl

end Builtin

end Formulary
