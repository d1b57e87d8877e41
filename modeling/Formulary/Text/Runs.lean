/-!
# Character classes given by runs

A class of characters is a list of runs of code points, each given by its first and last place.
-/

namespace Formulary.Text

/-- Whether a character lies in one of the runs. -/
def inRuns (runs : List (Nat × Nat)) (c : Char) : Bool :=
  runs.any fun run => run.1 ≤ c.toNat && c.toNat ≤ run.2

theorem inRuns_iff {runs : List (Nat × Nat)} {c : Char} :
    inRuns runs c = true ↔ ∃ run ∈ runs, run.1 ≤ c.toNat ∧ c.toNat ≤ run.2 := by
  simp [inRuns]

end Formulary.Text
