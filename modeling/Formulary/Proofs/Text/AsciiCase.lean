import Formulary.Proofs.Token.Lexeme

/-!
# ASCII letters and letter case

What the lower case of an ASCII letter has in common with the letter: whether it is a digit, a blank
or has case, and its own lower and upper case. So the lower and the upper case of a text do not
depend on the case of the ASCII letters in it (`lower_map_toLower`, `upper_map_toLower`), not even
the final form of the sigma, which only asks whether there are letters around it.
-/

namespace Formulary

namespace Text

/-! ### Single characters -/

theorem toLower_of_not_ascii {c : Char} (h : ¬ c.toNat < 0x80) : c.toLower = c := by
  rw [Char.toLower, dif_neg]
  rintro ⟨-, hle⟩
  exact h (lt_of_le_of_lt (UInt32.le_iff_toNat_le.mp hle) (by decide))

/-- A character that has another lower case is a letter of ASCII, and so is its lower case. -/
theorem toLower_eq_or (c : Char) :
    c.toLower = c ∨ c.isAlpha = true ∧ c.toLower.isAlpha = true := by
  by_cases hc : c.toNat < 0x80
  · exact forall_ascii (P := fun c => c.toLower = c ∨ c.isAlpha = true ∧ c.toLower.isAlpha = true)
      (by decide) hc
  · exact .inl (toLower_of_not_ascii hc)

/-- What is the same for all letters of ASCII does not depend on letter case. -/
theorem apply_toLower {α : Type} {f : Char → α} {a : α}
    (h : ∀ c : Char, c.isAlpha = true → f c = a) (c : Char) : f c.toLower = f c := by
  rcases toLower_eq_or c with hc | ⟨hc, hlower⟩
  · rw [hc]
  · rw [h c hc, h c.toLower hlower]

/-- What does not depend on the letter case of ASCII characters does not for any character. -/
theorem congr_toLower {α : Type} {f : Char → α}
    (h : ∀ n, n < 0x80 → f (Char.ofNat n).toLower = f (Char.ofNat n)) (c : Char) :
    f c.toLower = f c := by
  by_cases hc : c.toNat < 0x80
  · exact forall_ascii (P := fun c => f c.toLower = f c) h hc
  · rw [toLower_of_not_ascii hc]

theorem toNat_of_isAlpha {c : Char} (h : c.isAlpha = true) :
    0x41 ≤ c.toNat ∧ c.toNat ≤ 0x5A ∨ 0x61 ≤ c.toNat ∧ c.toNat ≤ 0x7A := by
  simpa [Char.isAlpha, Char.isUpper, Char.isLower, UInt32.le_iff_toNat_le] using h

/-- Whether a run of characters is seen to hold no letter of ASCII. -/
def isApart (run : Nat × Nat) : Bool :=
  run.2.blt 0x41 || Nat.blt 0x5A run.1 && run.2.blt 0x61 || Nat.blt 0x7A run.1

theorem inRuns_of_isAlpha {runs : List (Nat × Nat)} (h : runs.all isApart = true) {c : Char}
    (hc : c.isAlpha = true) : inRuns runs c = false := by
  by_contra hmem
  rw [Bool.not_eq_false, inRuns_iff] at hmem
  obtain ⟨run, hrun, hlow, hhigh⟩ := hmem
  have hapart := List.all_eq_true.mp h run hrun
  simp only [isApart, Bool.or_eq_true, Bool.and_eq_true, Nat.blt_eq] at hapart
  have := toNat_of_isAlpha hc
  omega

theorem isBlank_of_isAlpha (c : Char) (hc : c.isAlpha = true) : isBlank c = false :=
  inRuns_of_isAlpha (by decide) hc

theorem isPassedOver_of_isAlpha (c : Char) (hc : c.isAlpha = true) :
    inRuns passedOverRuns c = false :=
  inRuns_of_isAlpha (by decide +kernel) hc

theorem isCased_of_isAlpha (c : Char) (hc : c.isAlpha = true) : inRuns casedRuns c = true := by
  have hupper : (0x41, 0x5A) ∈ casedRuns := List.mem_cons_self
  have hlower : (0x61, 0x7A) ∈ casedRuns := List.mem_cons_of_mem _ List.mem_cons_self
  rw [inRuns_iff]
  rcases toNat_of_isAlpha hc with h | h
  · exact ⟨_, hupper, h⟩
  · exact ⟨_, hlower, h⟩

theorem isDigit_eq_false_of_isAlpha (c : Char) (hc : c.isAlpha = true) : isDigit c = false := by
  have hapart : (zeros.all fun first => isApart (first, first + 9)) = true := by decide
  rw [isDigit, digitValue?, Option.isSome_map, ← Bool.not_eq_true, List.find?_isSome]
  rintro ⟨first, hfirst, hdigit⟩
  have hno := List.all_eq_true.mp hapart first hfirst
  simp only [isApart, Bool.or_eq_true, Bool.and_eq_true, Nat.blt_eq] at hno
  rw [Bool.and_eq_true, decide_eq_true_eq, decide_eq_true_eq] at hdigit
  have := toNat_of_isAlpha hc
  omega

theorem isDigit_toLower : ∀ c : Char, isDigit c.toLower = isDigit c :=
  apply_toLower isDigit_eq_false_of_isAlpha

theorem isBlank_toLower : ∀ c : Char, isBlank c.toLower = isBlank c :=
  apply_toLower isBlank_of_isAlpha

theorem toLower_toLower : ∀ c : Char, c.toLower.toLower = c.toLower :=
  congr_toLower (by decide)

theorem lowerChar_toLower : ∀ c : Char, lowerChar c.toLower = lowerChar c :=
  congr_toLower (by decide)

theorem upperChar_toLower : ∀ c : Char, upperChar c.toLower = upperChar c :=
  congr_toLower (by decide)

theorem toLower_of_isDigit {c : Char} (h : isDigit c = true) : c.toLower = c :=
  (toLower_eq_or c).resolve_right fun hletter => by
    rw [isDigit_eq_false_of_isAlpha c hletter.1] at h
    cases h

theorem toLower_of_isBlank {c : Char} (h : isBlank c = true) : c.toLower = c :=
  (toLower_eq_or c).resolve_right fun hletter => by
    rw [isBlank_of_isAlpha c hletter.1] at h
    cases h

/-- Only letters are the lower case of another character. -/
theorem toLower_eq_iff {c d : Char} (hd : d.isAlpha = false) : c.toLower = d ↔ c = d := by
  rcases toLower_eq_or c with h | ⟨hletter, hlower⟩
  · rw [h]
  · constructor
    · rintro rfl
      rw [hd] at hlower
      cases hlower
    · rintro rfl
      rw [hd] at hletter
      cases hletter

/-! ### Lower and upper case -/

variable (text : List Char)

theorem takeWhile_map_toLower {p : Char → Bool} (hp : ∀ c : Char, p c.toLower = p c) :
    (text.map Char.toLower).takeWhile p = (text.takeWhile p).map Char.toLower := by
  rw [List.takeWhile_map]
  exact congrArg (fun q => (text.takeWhile q).map Char.toLower) (funext hp)

theorem dropWhile_map_toLower {p : Char → Bool} (hp : ∀ c : Char, p c.toLower = p c) :
    (text.map Char.toLower).dropWhile p = (text.dropWhile p).map Char.toLower := by
  rw [List.dropWhile_map]
  exact congrArg (fun q => (text.dropWhile q).map Char.toLower) (funext hp)

theorem takeWhile_isDigit_map_toLower :
    (text.map Char.toLower).takeWhile isDigit = text.takeWhile isDigit := by
  rw [takeWhile_map_toLower text isDigit_toLower]
  exact List.map_congr_left (fun c hc => toLower_of_isDigit (List.mem_takeWhile_imp hc)) |>.trans
    (List.map_id _)

theorem meetsCased_map_toLower : meetsCased (text.map Char.toLower) = meetsCased text := by
  rw [meetsCased, meetsCased, dropWhile_map_toLower text (apply_toLower isPassedOver_of_isAlpha)]
  rcases text.dropWhile (inRuns passedOverRuns) with - | ⟨c, rest⟩
  · rfl
  · exact apply_toLower isCased_of_isAlpha c

theorem lowerAfter_map_toLower (before : List Char) :
    lowerAfter (before.map Char.toLower) (text.map Char.toLower) = lowerAfter before text := by
  induction text generalizing before with
  | nil => rfl
  | cons c rest ih =>
    have hsigma : c.toLower = 'Σ' ↔ c = 'Σ' := toLower_eq_iff (by decide)
    rw [List.map_cons, lowerAfter, lowerAfter, ← List.map_cons, ih, meetsCased_map_toLower,
      meetsCased_map_toLower, lowerChar_toLower]
    simp only [hsigma]

/-- The lower case of a text does not depend on the case of its ASCII letters. -/
theorem lower_map_toLower : lower (text.map Char.toLower) = lower text :=
  lowerAfter_map_toLower text []

/-- Nor does the upper case. -/
theorem upper_map_toLower : upper (text.map Char.toLower) = upper text := by
  rw [upper, upper, List.flatMap_map]
  exact congrArg text.flatMap (funext upperChar_toLower)

end Text

end Formulary
