import Formulary.Text.Pattern

/-!
# Shell-style patterns

In a shell-style pattern a star stands for any text, a question mark for any character, and a
bracket for one character of a set or, after an exclamation mark, for one outside it. A closing
bracket that comes first in a set belongs to it, and a bracket that is never closed stands for
itself. All other characters stand for themselves, and the pattern describes whole texts.

Inside a bracket, the hyphens that join the ends of a range cut it into chunks. A range whose ends
are in the wrong order is empty: it is taken out together with its ends, and only then is it looked
at whether an exclamation mark comes first.
-/

namespace Formulary.Text.Glob

/-- The inside of a bracket and what follows it, if the bracket is closed. The first character of
the inside is never the closing bracket. -/
def bracket? (text : List Char) : Option (List Char × List Char) :=
  let (mark, afterMark) := match text with
    | '!' :: rest => (['!'], rest)
    | _ => ([], text)
  let (lead, afterLead) := match afterMark with
    | ']' :: rest => ([']'], rest)
    | _ => ([], afterMark)
  let inside := afterLead.takeWhile (· ≠ ']')
  match afterLead.dropWhile (· ≠ ']') with
  | _ :: rest => some (mark ++ lead ++ inside, rest)
  | [] => none

/-- The chunks of the inside of a bracket: a hyphen with at least the given number of characters
before it ends a chunk, and the chunks between two such hyphens have two characters or more. -/
def chunks (least : Nat) (text : List Char) : List (List Char) :=
  match _split : (text.drop least).dropWhile (· ≠ '-') with
  | _ :: rest => (text.take least ++ (text.drop least).takeWhile (· ≠ '-')) :: chunks 2 rest
  | [] => [text]
termination_by text.length
decreasing_by
  have := (List.dropWhile_suffix (l := text.drop least) (· ≠ '-')).length_le
  rw [_split] at this
  simp only [List.length_cons, List.length_drop] at this
  omega

/-- The chunks with a hyphen at the very end, which joins nothing, put back into the last one. -/
def closeLast : List (List Char) → List (List Char)
  | [] => []
  | [chunk, []] => [chunk ++ ['-']]
  | chunk :: others => chunk :: closeLast others

/-- A chunk put before others; an empty range between it and the next one is taken out. -/
def joinChunk (chunk : List Char) : List (List Char) → List (List Char)
  | [] => [chunk]
  | next :: others =>
    match chunk.getLast?, next with
    | some low, high :: rest =>
      if high < low then (chunk.dropLast ++ rest) :: others else chunk :: next :: others
    | _, _ => chunk :: next :: others

/-- A sign inside a bracket: a character that stands for itself or a hyphen that joins. -/
inductive Sign
  | plain (c : Char)
  | hyphen
  deriving DecidableEq, Repr

/-- The character that a sign is. -/
def Sign.char : Sign → Char
  | .plain c => c
  | .hyphen => '-'

/-- The signs of chunks with a joining hyphen between each two. -/
def signs : List (List Char) → List Sign
  | [] => []
  | [chunk] => chunk.map .plain
  | chunk :: others => chunk.map .plain ++ .hyphen :: signs others

/-- The ranges that signs list; a hyphen that joins nothing stands for itself. -/
def ranges : List Sign → List (Char × Char)
  | low :: .hyphen :: high :: rest => (low.char, high.char) :: ranges rest
  | sign :: rest => (sign.char, sign.char) :: ranges rest
  | [] => []

/-- The signs of the inside of a bracket without its empty ranges. -/
def insideSigns (inside : List Char) : List Sign :=
  let least := if inside.head? = some '!' then 2 else 1
  signs ((closeLast (chunks least inside)).foldr joinChunk [])

/-- The set that the inside of a bracket describes. -/
def charSet (inside : List Char) : CharSet :=
  match insideSigns inside with
  | .plain '!' :: rest => ⟨true, ranges rest⟩
  | all => ⟨false, ranges all⟩

/-- The items of a pattern of at most the given number of characters. -/
def itemsWithin : Nat → List Char → List PatternItem
  | 0, _ | _, [] => []
  | bound + 1, '*' :: rest => .many .everything :: itemsWithin bound rest
  | bound + 1, '?' :: rest => .one .everything :: itemsWithin bound rest
  | bound + 1, '[' :: rest =>
    match bracket? rest with
    | some (inside, rest) => .one (charSet inside) :: itemsWithin bound rest
    | none => .one (.single '[') :: itemsWithin bound rest
  | bound + 1, c :: rest => .one (.single c) :: itemsWithin bound rest

/-- The items of a pattern. -/
def items (pattern : String) : List PatternItem :=
  itemsWithin pattern.toList.length pattern.toList

/-- Whether a text fits a pattern. -/
def accepts (pattern text : String) : Bool :=
  PatternItem.matchWhole (items pattern) text.toList

end Formulary.Text.Glob
