import Formulary.Text.Runs

/-!
# Blank characters

The characters that separate tokens and words: the white space of every script, together with the
four information separators of ASCII. A character of core's own white space is blank
(`isBlank_of_isWhitespace`).
-/

namespace Formulary.Text

/-- The runs of blank characters, in order. -/
def blankRuns : List (Nat × Nat) :=
  [(0x9, 0xD), (0x1C, 0x20), (0x85, 0x85), (0xA0, 0xA0), (0x1680, 0x1680), (0x2000, 0x200A),
   (0x2028, 0x2029), (0x202F, 0x202F), (0x205F, 0x205F), (0x3000, 0x3000)]

/-- Whether a character is blank. -/
def isBlank (c : Char) : Bool := inRuns blankRuns c

theorem isBlank_of_isWhitespace {c : Char} (h : c.isWhitespace = true) : isBlank c = true := by
  simp only [Char.isWhitespace, Bool.or_eq_true, decide_eq_true_eq] at h
  rcases h with ((rfl | rfl) | rfl) | rfl <;> decide

/-- The maximal runs of characters that are not blank, in order. -/
def words (text : List Char) : List (List Char) :=
  let step := fun (c : Char) (acc : List Char × List (List Char)) =>
    if isBlank c then ([], if acc.1.isEmpty then acc.2 else acc.1 :: acc.2)
    else (c :: acc.1, acc.2)
  let (first, others) := text.foldr step ([], [])
  if first.isEmpty then others else first :: others

end Formulary.Text
