import Formulary.Text.Printable

/-!
# Quoted texts

A text is shown between single quotes, or between double quotes if it holds a single quote and no
double one. Inside, the quote and the backslash follow a backslash, a tab, a line feed and a
carriage return have their letters, and every other character that is not printable is written by
its code point in two, four or eight hexadecimal digits.

A text of plain characters is shown as it is (`quoted_of_plain`).
-/

namespace Formulary.Text

/-- The last `width` hexadecimal digits of a number. -/
def hexadecimal : Nat → Nat → List Char
  | 0, _ => []
  | width + 1, n => hexadecimal width (n / 16) ++ [Nat.digitChar (n % 16)]

/-- A character written by its code point. -/
def byCodePoint (c : Char) : List Char :=
  if c.toNat < 0x100 then '\\' :: 'x' :: hexadecimal 2 c.toNat
  else if c.toNat < 0x10000 then '\\' :: 'u' :: hexadecimal 4 c.toNat
  else '\\' :: 'U' :: hexadecimal 8 c.toNat

/-- How one character is written between the given quotes. -/
def escape (quote c : Char) : List Char :=
  if c = quote ∨ c = '\\' then ['\\', c]
  else if c = '\t' then ['\\', 't']
  else if c = '\n' then ['\\', 'n']
  else if c = '\r' then ['\\', 'r']
  else if isPrintable c then [c]
  else byCodePoint c

/-- The quote that a text is shown with. -/
def quoteFor (text : List Char) : Char :=
  if text.contains '\'' && !text.contains '"' then '"' else '\''

/-- A text as it is shown. -/
def quoted (text : List Char) : List Char :=
  let quote := quoteFor text
  quote :: (text.flatMap (escape quote) ++ [quote])

/-- A text as it is shown. -/
def quote (text : String) : String := String.ofList (quoted text.toList)

/-- A text in which the characters beyond ASCII are written by their code points. -/
def ascii (text : String) : String :=
  String.ofList (text.toList.flatMap fun c => if c.toNat < 0x80 then [c] else byCodePoint c)

/-- A character that is shown as itself between either quotes. -/
def IsPlain (c : Char) : Prop :=
  isPrintable c = true ∧ c ≠ '\'' ∧ c ≠ '"' ∧ c ≠ '\\' ∧ c ≠ '\t' ∧ c ≠ '\n' ∧ c ≠ '\r'

theorem escape_of_isPlain {c : Char} (h : IsPlain c) : escape '\'' c = [c] := by
  obtain ⟨hp, h₁, -, h₂, h₃, h₄, h₅⟩ := h
  simp [escape, hp, h₁, h₂, h₃, h₄, h₅]

theorem quoted_of_plain {text : List Char} (h : ∀ c ∈ text, IsPlain c) :
    quoted text = '\'' :: (text ++ ['\'']) := by
  have hq : '\'' ∉ text := fun hm => (h _ hm).2.1 rfl
  have hb : text.flatMap (escape '\'') = text := by
    induction text with
    | nil => rfl
    | cons c rest ih =>
      have hr : ∀ d ∈ rest, IsPlain d := fun d hd => h d (List.mem_cons_of_mem _ hd)
      have hrq : '\'' ∉ rest := fun hm => (hr _ hm).2.1 rfl
      rw [List.flatMap_cons, escape_of_isPlain (h c List.mem_cons_self), ih hr hrq]
      rfl
  simp [quoted, quoteFor, hq, hb]

end Formulary.Text
