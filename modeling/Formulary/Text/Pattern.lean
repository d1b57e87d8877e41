/-!
# Text patterns

A pattern is a list of items: sets of characters to be met once or any number of times.

A match is followed through the items with all its choices at once. A text of `n` characters has
`n + 1` places, and a list of marks says which of them a match may have come to. Each item takes the
marks before it to those after it in one pass over the text (`pass`), so the time grows with the
text and the number of items only. A match starts at the first place and ends at the last one.
-/

namespace Formulary.Text

/-- A set of characters, given by what is inside its ranges or, if negated, by what is not. -/
structure CharSet where
  negated : Bool
  ranges : List (Char × Char)
  deriving DecidableEq, Repr

namespace CharSet

/-- Whether a character belongs to the set. -/
def has (s : CharSet) (c : Char) : Bool :=
  s.negated ^^ s.ranges.any fun range => range.1 ≤ c && c ≤ range.2

/-- The set of one character. -/
def single (c : Char) : CharSet := ⟨false, [(c, c)]⟩

/-- The set of all characters. -/
def everything : CharSet := ⟨true, []⟩

end CharSet

/-- An item of a pattern. -/
inductive PatternItem
  | one (s : CharSet)
  | many (s : CharSet)
  deriving DecidableEq, Repr

namespace PatternItem

/-- Whether the text at a place goes on with a character of a set. -/
def meets (s : CharSet) : List Char → Bool
  | [] => false
  | c :: _ => s.has c

/-- What an item does at a place before `rest`: whether a match can be there after the item, and
whether it can pass over the next character within the item. A match may have come to the place
before the item (`entered`) or by passing over a character within it (`within`). -/
def atPlace (item : PatternItem) (entered within : Bool) (rest : List Char) : Bool × Bool :=
  match item with
  | .one s => (within, entered && meets s rest)
  | .many s => (entered || within, (entered || within) && meets s rest)

/-- The marks after an item, given those before it, from a place of the text on. -/
def pass (item : PatternItem) (within : Bool) : List Char → List Bool → List Bool
  | [], marks => [(item.atPlace (marks.headD false) within []).1]
  | c :: rest, marks =>
    let (stays, goes) := item.atPlace (marks.headD false) within (c :: rest)
    stays :: pass item goes rest marks.tail

/-- The marks after some items, given those before them. -/
def passAll (items : List PatternItem) (text : List Char) (marks : List Bool) : List Bool :=
  items.foldl (fun marks item => item.pass false text marks) marks

/-- Whether the items match a whole text. -/
def matchWhole (items : List PatternItem) (text : List Char) : Bool :=
  (passAll items text (true :: text.map fun _ => false)).getLastD false

end PatternItem

end Formulary.Text
