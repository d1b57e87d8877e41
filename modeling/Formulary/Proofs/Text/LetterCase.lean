import Formulary.Bindings
import Mathlib

/-!
# Lower case is settled

A text in lower case stays as it is when it is put in lower case again. What has to be looked at are
the letters that the maps give: none of them is mapped on, and none of them is the capital sigma,
whose lower case depends on its place. For two runs of the table this is read off their ends: what
the one gives lies before or after what the other covers, or between its strides.

Main results: `lowerCase_lowerCase`, and from it that a name stands for itself
(`Bindings.normalize_text_normalize`).
-/

namespace Formulary

namespace Text

/-- Whether a character stays as it is in lower case, wherever it stands. -/
def isSettled (c : Char) : Bool := c != 'Σ' && lowerChar c == [c]

theorem isSettled_iff {c : Char} : isSettled c = true ↔ c ≠ 'Σ' ∧ lowerChar c = [c] := by
  simp [isSettled]

/-! ### What the runs give -/

/-- What a run gives for the letter of a number. -/
def CaseRun.image (run : CaseRun) (letter : Nat) : Nat := (letter + run.shift).toNat

/-- Whether what a run gives is seen to lie outside another run. -/
def CaseRun.avoids (run other : CaseRun) : Bool :=
  (run.image run.last).blt other.first || other.last.blt (run.image run.first) ||
    (other.stride == 2 && (run.stride == 2 || run.first == run.last) &&
      (run.image run.first + other.first) % 2 == 1)

/-- Whether what a run gives are letters, and is seen to lie outside the letters with sequences of
their own; what falls into ASCII must be a small letter. -/
def CaseRun.givesLetters (run : CaseRun) : Bool :=
  decide (0 ≤ run.first + run.shift) &&
    ((run.image run.last).blt 0xD800 || Nat.ble 0xE000 (run.image run.first) &&
      (run.image run.last).blt 0x110000) &&
    ((run.image run.last).blt 0x130 || Nat.blt 0x130 (run.image run.first)) &&
    (Nat.ble 0x80 (run.image run.first) ||
      Nat.ble 0x61 (run.image run.first) && (run.image run.last).ble 0x7A)

theorem avoids_lowerRuns : (lowerRuns.all fun run => lowerRuns.all run.avoids) = true := by
  decide +kernel

theorem givesLetters_lowerRuns : lowerRuns.all CaseRun.givesLetters = true := by
  decide

theorem CaseRun.covers_iff {run : CaseRun} {c : Char} :
    run.covers c = true ↔
      run.first ≤ c.toNat ∧ c.toNat ≤ run.last ∧ (c.toNat - run.first) % run.stride = 0 := by
  simp [covers, and_assoc]

theorem CaseRun.not_covers_of_avoids {run other : CaseRun} (h : run.avoids other = true)
    (hg : 0 ≤ run.first + run.shift) {c d : Char} (hc : run.covers c = true)
    (hd : d.toNat = run.image c.toNat) : other.covers d = false := by
  obtain ⟨hfirst, hlast, hstride⟩ := covers_iff.mp hc
  by_contra hcov
  obtain ⟨hfirst', hlast', hstride'⟩ := covers_iff.mp (by simpa using hcov)
  simp only [avoids, Bool.or_eq_true, Bool.and_eq_true, Nat.blt_eq, beq_iff_eq, image] at h
  simp only [image] at hd
  rcases h with (h | h) | ⟨⟨h', h | h⟩, hodd⟩
  · omega
  · omega
  -- both go in strides of two, and start at places of different parity
  · rw [h] at hstride
    rw [h'] at hstride'
    omega
  · rw [h'] at hstride'
    omega

/-- A small letter of ASCII is settled. -/
theorem isSettled_of_small {c : Char} (h : 0x61 ≤ c.toNat) (h' : c.toNat ≤ 0x7A) :
    isSettled c = true := by
  have hall : ∀ n, n < 26 → isSettled (Char.ofNat (0x61 + n)) = true := by decide
  have hc : Char.ofNat (0x61 + (c.toNat - 0x61)) = c := by
    rw [Nat.add_sub_cancel' h]
    exact Char.ofNat_toNat c
  rw [← hc]
  exact hall _ (by omega)

/-- A character beyond ASCII that no run covers, and that has no sequence of its own, is settled. -/
theorem isSettled_of_not_covers {c : Char} (h : ∀ run ∈ lowerRuns, run.covers c = false)
    (hlarge : 0x80 ≤ c.toNat) (hne : c.toNat ≠ 0x130) : isSettled c = true := by
  refine isSettled_iff.mpr ⟨?_, ?_⟩
  · intro hsigma
    -- the capital sigma is itself covered
    have hcovered : lowerRuns.any (·.covers 'Σ') = true := by decide
    obtain ⟨run, hrun, hcov⟩ := List.any_eq_true.mp hcovered
    rw [← hsigma, h run hrun] at hcov
    cases hcov
  · have hlookup : lowerSequences.lookup c.toNat = none := by
      rw [lowerSequences, List.lookup_cons, beq_eq_false_iff_ne.mpr hne]
      rfl
    have hfind : lowerRuns.find? (·.covers c) = none := by
      rw [List.find?_eq_none]
      intro run hrun
      simp [h run hrun]
    rw [lowerChar, if_neg (by omega), mapCase, hlookup]
    simp only [hfind]

/-- What a run of the table gives is settled. -/
theorem isSettled_of_covers {run : CaseRun} (hrun : run ∈ lowerRuns) {c : Char}
    (hc : run.covers c = true) : isSettled (Char.ofNat (run.image c.toNat)) = true := by
  have hgives := List.all_eq_true.mp givesLetters_lowerRuns run hrun
  simp only [CaseRun.givesLetters, Bool.and_eq_true, Bool.or_eq_true, decide_eq_true_eq,
    Nat.blt_eq, Nat.ble_eq] at hgives
  obtain ⟨⟨⟨hpos, hvalid⟩, hsequence⟩, hascii⟩ := hgives
  obtain ⟨hfirst, hlast, -⟩ := CaseRun.covers_iff.mp hc
  have hlow : run.image run.first ≤ run.image c.toNat := by
    simp only [CaseRun.image]
    omega
  have hhigh : run.image c.toNat ≤ run.image run.last := by
    simp only [CaseRun.image]
    omega
  have hd : (Char.ofNat (run.image c.toNat)).toNat = run.image c.toNat := by
    rw [Char.toNat_ofNat, if_pos]
    simp only [Nat.isValidChar]
    omega
  have hno : ∀ other ∈ lowerRuns, other.covers (Char.ofNat (run.image c.toNat)) = false :=
    fun other hother => CaseRun.not_covers_of_avoids
      (List.all_eq_true.mp (List.all_eq_true.mp avoids_lowerRuns run hrun) other hother)
      hpos hc hd
  rcases hascii with hascii | ⟨hsmall, hsmall'⟩
  · exact isSettled_of_not_covers hno (by omega) (by omega)
  · exact isSettled_of_small (by omega) (by omega)

/-! ### Single characters -/

theorem isSettled_toLower {c : Char} (h : c.toNat < 0x80) : isSettled c.toLower = true := by
  have hall : ∀ n, n < 0x80 → isSettled (Char.ofNat n).toLower = true := by decide
  have := hall _ h
  rwa [Char.ofNat_toNat] at this

/-- What a character other than the capital sigma is mapped to is settled. -/
theorem isSettled_of_mem_lowerChar {c d : Char} (hc : c ≠ 'Σ') (hd : d ∈ lowerChar c) :
    isSettled d = true := by
  rw [lowerChar] at hd
  split at hd
  · next hascii =>
    obtain rfl := List.mem_singleton.mp hd
    exact isSettled_toLower hascii
  · next hascii =>
    rw [mapCase] at hd
    split at hd
    · next image himage =>
      -- only one character has a lower case of several characters
      have : c.toNat = 0x130 ∧ image = [0x69, 0x307] := by
        rw [lowerSequences, List.lookup_cons] at himage
        split at himage
        · next heq => exact ⟨eq_of_beq heq, (Option.some.inj himage).symm⟩
        · cases himage
      obtain ⟨-, rfl⟩ := this
      have hall : ([0x69, 0x307].map Char.ofNat).all isSettled = true := by decide
      exact List.all_eq_true.mp hall d hd
    · next hlookup =>
      split at hd
      · next run hrun =>
        obtain rfl := List.mem_singleton.mp hd
        exact isSettled_of_covers (List.mem_of_find?_eq_some hrun)
          (List.find?_some (p := (CaseRun.covers · c)) hrun)
      · next hfind =>
        obtain rfl := List.mem_singleton.mp hd
        refine isSettled_iff.mpr ⟨hc, ?_⟩
        simp [lowerChar, hascii, mapCase, hlookup, hfind]

/-! ### Texts -/

theorem isSettled_of_mem_lowerAfter {text before : List Char} {d : Char}
    (hd : d ∈ lowerAfter before text) : isSettled d = true := by
  induction text generalizing before with
  | nil => cases hd
  | cons c rest ih =>
    rw [lowerAfter, List.mem_append] at hd
    rcases hd with hd | hd
    · split at hd
      · obtain rfl := List.mem_singleton.mp hd
        split
        · decide
        · decide
      · next hc => exact isSettled_of_mem_lowerChar hc hd
    · exact ih hd

theorem lowerAfter_of_isSettled {text : List Char} (h : ∀ c ∈ text, isSettled c = true)
    (before : List Char) : lowerAfter before text = text := by
  induction text generalizing before with
  | nil => rfl
  | cons c rest ih =>
    obtain ⟨hsigma, hlower⟩ := isSettled_iff.mp (h c List.mem_cons_self)
    rw [lowerAfter, if_neg hsigma, hlower, ih fun d hd => h d (List.mem_cons_of_mem _ hd)]
    rfl

/-- A text in lower case is in lower case. -/
theorem lowerCase_lowerCase (text : String) : lowerCase (lowerCase text) = lowerCase text := by
  simp only [lowerCase, lower, String.toList_ofList]
  rw [lowerAfter_of_isSettled fun c hc => isSettled_of_mem_lowerAfter hc]

end Text

namespace Bindings

/-- The name that a key stands for stands for itself. -/
theorem normalize_text_normalize (b : Bindings) (key : Value) :
    b.normalize (.text (b.normalize key)) = b.normalize key := by
  simp only [normalize, Value.display]
  split
  · rfl
  · exact Text.lowerCase_lowerCase _

end Bindings

end Formulary
