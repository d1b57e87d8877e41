import Formulary.Value.Equality
import Formulary.Value.Printer

/-!
# Key paths

The keys from the top of a nested mapping down to a leaf form a path. Written as one key, a path is
its segments' texts with a point between each two; it is a symbol if its first segment is one. A
path of one key is that key unchanged, so keys that are no texts survive.

Splitting a text at its points and joining the segments again gives the text back
(`join_split`).
-/

namespace Formulary

namespace Text

/-- The segments of a text between the separators; a text has at least one. -/
def split (separator : Char) : List Char → List (List Char)
  | [] => [[]]
  | c :: rest =>
    if c = separator then [] :: split separator rest
    else match split separator rest with
      | segment :: others => (c :: segment) :: others
      | [] => [[c]]

/-- The segments joined with a separator between each two. -/
def join (separator : Char) : List (List Char) → List Char
  | [] => []
  | [segment] => segment
  | segment :: others => segment ++ separator :: join separator others

theorem split_ne_nil (separator : Char) (text : List Char) : split separator text ≠ [] := by
  cases text with
  | nil => simp [split]
  | cons c rest =>
    rw [split]
    split
    · simp
    · split <;> simp

theorem join_split (separator : Char) (text : List Char) :
    join separator (split separator text) = text := by
  induction text with
  | nil => rfl
  | cons c rest ih =>
    rw [split]
    have hne := split_ne_nil separator rest
    split
    · next h =>
      cases hs : split separator rest with
      | nil => exact absurd hs hne
      | cons segment others => rw [hs] at ih; simp [join, ih, h]
    · cases hs : split separator rest with
      | nil => exact absurd hs hne
      | cons segment others =>
        rw [hs] at ih
        cases others with
        | nil => simpa [join] using ih
        | cons next others => simpa [join] using ih

end Text

namespace Path

/-- What stands between the segments of a written path. -/
def separator : Char := '.'

/-- The key that a nonempty path is written as. -/
def toKey : List Value → Value
  | [key] => key
  | path =>
    let joined := String.ofList (Text.join separator (path.map (·.display.toList)))
    match path.head?.map Value.bare with
    | some (.symbol _) => .symbol joined
    | _ => .text joined

/-- The key that a path is written as; an empty path has none. -/
def toKey? (path : List Value) : Except Error Value :=
  if path.isEmpty then throw .outOfRange else pure (toKey path)

/-- The segments of a text as texts. -/
def segments (text : String) : List String :=
  (Text.split separator text.toList).map String.ofList

/-- The path that a key is written for; a key that is neither text nor symbol is its own path. -/
def ofKey (key : Value) : List Value :=
  match key.bare with
  | .text s => (segments s).map .text
  | .symbol s => (segments s).map .symbol
  | _ => [key]

@[simp] theorem toKey_singleton (key : Value) : toKey [key] = key := by
  simp [toKey]

theorem ofKey_ne_nil (key : Value) : ofKey key ≠ [] := by
  cases h : key.bare <;> simp [ofKey, h, segments, Text.split_ne_nil]

end Path

end Formulary
