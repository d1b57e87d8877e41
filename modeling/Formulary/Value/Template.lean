import Formulary.Number.Precision
import Formulary.Value.Equality
import Formulary.Value.Printer

/-!
# Filling templates

A text on the left of the remainder operator is a template. Each conversion in it, from a percent
sign to a letter, makes a text of an argument; between the two stand the key that the argument is
kept under, flags, the least width and the precision. The items of a tuple are the arguments, and
every other value is one argument. All arguments must be used, except that a list or a mapping may
stand by unused.

A template is read into `pieces` first, whatever the arguments are, and then filled piece by piece
from left to right. So the first piece that cannot be filled decides the failure, and within a
conversion the key, the width, the precision and the letter do, in this order.

What is laid out is at least as wide as its conversion says (`width_le_length_of_layOut`).
-/

namespace Formulary

namespace Template

/-! ### Reading a template -/

/-- A width or a precision: written in digits, or taken from the arguments. -/
inductive Count
  | written (n : Nat)
  | taken
  deriving DecidableEq, Repr

/-- A conversion; a template that ends too early has no letter for it. -/
structure Conversion where
  key : Option String
  flags : List Char
  width : Option Count
  precision : Option Count
  letter : Option Char
  deriving DecidableEq, Repr

/-- A piece of a template. -/
inductive Piece
  | plain (c : Char)
  | conversion (c : Conversion)
  /-- A key whose parenthesis is not closed. -/
  | openKey
  deriving DecidableEq, Repr

/-- The flags: to the left, a sign, a blank in its place, the other form, and zeros. -/
def flagLetters : List Char := ['-', '+', ' ', '#', '0']

/-- The letters for the size of a machine number, which say nothing about a value. -/
def sizeLetters : List Char := ['h', 'l', 'L']

/-- The text up to the parenthesis that closes as many as are open, and what follows. -/
def readKey? : Nat → List Char → Option (List Char × List Char)
  | _, [] => none
  | depth, '(' :: rest => (readKey? (depth + 1) rest).map fun found => ('(' :: found.1, found.2)
  | 0, ')' :: rest => some ([], rest)
  | depth + 1, ')' :: rest => (readKey? depth rest).map fun found => (')' :: found.1, found.2)
  | depth, c :: rest => (readKey? depth rest).map fun found => (c :: found.1, found.2)

/-- A count at the beginning of a text, and what follows. -/
def readCount : List Char → Option Count × List Char
  | '*' :: rest => (some .taken, rest)
  | text =>
    match text.takeWhile Char.isDigit with
    | [] => (none, text)
    | digits => (some (.written (Text.naturalOf digits)), text.dropWhile Char.isDigit)

/-- A precision at the beginning of a text, and what follows; a point alone is a precision of
zero. -/
def readPrecision : List Char → Option Count × List Char
  | '.' :: rest => (some ((readCount rest).1.getD (.written 0)), (readCount rest).2)
  | text => (none, text)

/-- The letter at the beginning of a text, after one for a size, and what follows. -/
def readLetter : List Char → Option Char × List Char
  | [] => (none, [])
  | c :: rest => if sizeLetters.contains c then (rest.head?, rest.tail) else (some c, rest)

/-- The conversion with a key that begins a text, and what follows. -/
def readConversion (key : Option String) (text : List Char) : Piece × List Char :=
  let width := readCount (text.dropWhile flagLetters.contains)
  let precision := readPrecision width.2
  let letter := readLetter precision.2
  (.conversion
    { key := key
      flags := text.takeWhile flagLetters.contains
      width := width.1
      precision := precision.1
      letter := letter.1 }, letter.2)

/-- The piece that follows a percent sign, and what follows the piece. -/
def readPiece : List Char → Piece × List Char
  | '%' :: rest => (.plain '%', rest)
  | '(' :: rest =>
    match readKey? 0 rest with
    | some (key, rest) => readConversion (some (String.ofList key)) rest
    | none => (.openKey, [])
  | text => readConversion none text

theorem isSuffix_of_readKey? {depth : Nat} {text : List Char} {found : List Char × List Char}
    (h : readKey? depth text = some found) : found.2 <:+ text := by
  fun_induction readKey? depth text generalizing found with
  | case1 => cases h
  | case3 => cases h; exact List.suffix_cons ..
  | case2 depth rest ih | case4 depth rest ih | case5 depth c rest _ _ _ ih =>
    obtain ⟨inner, hinner, rfl⟩ := Option.map_eq_some_iff.mp h
    exact (ih hinner).trans (List.suffix_cons ..)

theorem isSuffix_readCount (text : List Char) : (readCount text).2 <:+ text := by
  rw [readCount.eq_def]
  split
  · exact List.suffix_cons ..
  · split
    · exact List.suffix_rfl
    · exact List.dropWhile_suffix _

theorem isSuffix_readPrecision (text : List Char) : (readPrecision text).2 <:+ text := by
  rw [readPrecision.eq_def]
  split
  · exact (isSuffix_readCount _).trans (List.suffix_cons ..)
  · exact List.suffix_rfl

theorem isSuffix_readLetter (text : List Char) : (readLetter text).2 <:+ text := by
  cases text with
  | nil => exact List.suffix_rfl
  | cons c rest =>
    rw [readLetter]
    split
    · exact (List.tail_suffix rest).trans (List.suffix_cons ..)
    · exact List.suffix_cons ..

theorem isSuffix_readConversion (key : Option String) (text : List Char) :
    (readConversion key text).2 <:+ text :=
  (isSuffix_readLetter _).trans <| (isSuffix_readPrecision _).trans <|
    (isSuffix_readCount _).trans (List.dropWhile_suffix _)

theorem isSuffix_readPiece (text : List Char) : (readPiece text).2 <:+ text := by
  rw [readPiece.eq_def]
  split
  · exact List.suffix_cons ..
  · split
    · next hkey =>
      exact (isSuffix_readConversion _ _).trans <|
        (isSuffix_of_readKey? hkey).trans (List.suffix_cons ..)
    · exact List.nil_suffix
  · exact isSuffix_readConversion _ _

/-- The pieces of a template text. -/
def pieces : List Char → List Piece
  | [] => []
  | '%' :: rest => (readPiece rest).1 :: pieces (readPiece rest).2
  | c :: rest => .plain c :: pieces rest
termination_by text => text.length
decreasing_by
  · exact Nat.lt_succ_of_le (isSuffix_readPiece rest).length_le
  · exact Nat.lt_succ_self _

/-! ### The text of an argument -/

/-- What is needed of an argument, which is of the wrong type without it. -/
def needed {α : Type} : Option α → Except Error α
  | some a => pure a
  | none => throw .wrongType

/-- How an argument is laid out; a negative width is one to the left. -/
structure Style where
  flags : List Char
  width : Int
  precision : Option Nat

/-- The text of an argument in parts: a number may have a sign and a mark of its base before its
digits. -/
structure Converted where
  lead : List Char
  body : List Char
  isNumber : Bool

/-- The kinds of conversion. -/
inductive Kind
  | display
  | shown
  | ascii
  | whole
  | inBase (base : Nat)
  | decimal (form : DecimalForm)
  | character
  deriving DecidableEq, Repr

/-- The kind of conversion of a letter. -/
def Kind.ofLetter? : Char → Option Kind
  | 's' => some .display
  | 'r' => some .shown
  | 'a' => some .ascii
  | 'd' | 'i' | 'u' => some .whole
  | 'o' => some (.inBase 8)
  | 'x' | 'X' => some (.inBase 16)
  | 'e' | 'E' => some (.decimal .scientific)
  | 'f' | 'F' => some (.decimal .fixed)
  | 'g' | 'G' => some (.decimal .general)
  | 'c' => some .character
  | _ => none

namespace Style

/-- Whether a flag is given. -/
def has (style : Style) (flag : Char) : Bool := style.flags.contains flag

/-- The sign before the digits of a number. -/
def sign (style : Style) (negative : Bool) : List Char :=
  if negative then ['-']
  else if style.has '+' then ['+']
  else if style.has ' ' then [' ']
  else []

/-- A text with no more characters than the precision. -/
def clipped (style : Style) (text : String) : Converted where
  lead := []
  body := text.toList.take (style.precision.getD text.length)
  isNumber := false

/-- A number in parts; an upper-case letter asks for upper-case digits. -/
def number (style : Style) (letter : Char) (negative : Bool) (mark digits : List Char) :
    Converted where
  lead := style.sign negative ++ mark
  body := if letter.isUpper then digits.map Char.toUpper else digits
  isNumber := true

/-- The most digits that a precision can ask of an integer. -/
def mostDigits : Nat := Nat.pow 2 31 - 4

/-- An integer with at least as many digits as the precision. -/
def integer (style : Style) (letter : Char) (base : Nat) (mark : List Char) (n : Int) :
    Except Error Converted :=
  let least := style.precision.getD 0
  if mostDigits < least then throw .overflow
  else
    pure (style.number letter (n < 0) mark
      (Decimal.padded least (Nat.toDigits base n.natAbs)))

/-- A floating-point number with the precision, which is six unless given. -/
def decimal (style : Style) (letter : Char) (form : DecimalForm) (x : Binary64) : Converted :=
  style.number letter x.isNegative [] <|
    match x with
    | .nan => "nan".toList
    | .infinite _ => "inf".toList
    | .finite .. => Decimal.writeIn form (style.has '#') (style.precision.getD 6) x

/-- The character that a value is or is the code point of. Code points kept for pairs are none of a
character. -/
def characterOf (v : Value) : Except Error Char :=
  match v.text? with
  | some s =>
    match s.toList with
    | [c] => pure c
    | _ => throw .wrongType
  | none => do
    let n ← needed v.integer?
    if n < 0 ∨ 0x10FFFF < n then throw .overflow
    else if n.toNat.isValidChar then pure (Char.ofNat n.toNat)
    else throw .badValue

/-- The text of an argument by the letter of a conversion. -/
def convert (style : Style) (letter : Char) (v : Value) : Except Error Converted :=
  match Kind.ofLetter? letter with
  | some .display => pure (style.clipped v.display)
  | some .shown => pure (style.clipped v.shown)
  | some .ascii => pure (style.clipped (Text.ascii v.shown))
  | some .whole => do style.integer letter 10 [] (← (← needed v.number?).truncate)
  | some (.inBase base) => do
    style.integer letter base (if style.has '#' then ['0', letter] else []) (← needed v.integer?)
  | some (.decimal form) => do return style.decimal letter form (← (← needed v.number?).toBinary64)
  | some .character => do return ⟨[], [← characterOf v], false⟩
  | none => throw .badValue

/-- The parts with the padding up to the width: behind them, before them or, as zeros, before the
digits of a number. -/
def layOut (style : Style) (parts : Converted) : Except Error (List Char) :=
  let missing := style.width.natAbs - (parts.lead.length + parts.body.length)
  if Value.roomLimit < style.width.natAbs then throw .outOfRoom
  else if style.has '-' || style.width < 0 then
    pure (parts.lead ++ parts.body ++ List.replicate missing ' ')
  else if style.has '0' && parts.isNumber then
    pure (parts.lead ++ List.replicate missing '0' ++ parts.body)
  else pure (List.replicate missing ' ' ++ parts.lead ++ parts.body)

theorem width_le_length_of_layOut {style : Style} {parts : Converted} {text : List Char}
    (h : style.layOut parts = .ok text) : style.width.natAbs ≤ text.length := by
  simp only [layOut] at h
  split at h
  · cases h
  · split at h
    · cases h
      simp only [List.length_append, List.length_replicate]
      omega
    · split at h
      all_goals
        cases h
        simp only [List.length_append, List.length_replicate]
        omega

end Style

/-! ### Filling the pieces -/

/-- Where conversions take their arguments from: the arguments left, and the list or mapping that
these come from, if it is one. -/
structure Supply where
  left : List Value
  holder : Option Value

namespace Supply

/-- The arguments that a value stands for. -/
def ofValue (v : Value) : Supply :=
  match v.bare with
  | .tuple items => ⟨items, none⟩
  | .list _ | .map _ => ⟨[v], some v⟩
  | _ => ⟨[v], none⟩

/-- The next argument. -/
def next (supply : Supply) : Except Error (Value × Supply) :=
  match supply.left with
  | [] => throw .wrongType
  | v :: rest => pure (v, { supply with left := rest })

/-- With a key, the next argument is what the mapping keeps under it. A list keeps nothing under a
text. -/
def under (supply : Supply) : Option String → Except Error Supply
  | none => pure supply
  | some key =>
    match supply.holder.bind Value.entries? with
    | none => throw .wrongType
    | some entries =>
      match Table.get? entries (.text key) with
      | some v => pure { supply with left := [v] }
      | none => throw .missingKey

/-- A count that is less than a limit, if there is one. -/
def count (supply : Supply) (limit : Int) : Option Count → Except Error (Option Int × Supply)
  | none => pure (none, supply)
  | some (.written n) => if limit ≤ n then throw .badValue else pure (some n, supply)
  | some .taken => do
    let (v, supply) ← supply.next
    let n ← needed v.integer?
    if -limit ≤ n ∧ n < limit then pure (some n, supply) else throw .overflow

/-- The first whole number beyond the precisions. -/
def precisionLimit : Int := Nat.pow 2 31

/-- The style of a conversion. The least width has no opposite and asks for nothing; a negative
precision is one of zero. -/
def style (supply : Supply) (c : Conversion) : Except Error (Style × Supply) := do
  let (width, supply) ← supply.count Value.wordLimit c.width
  let (precision, supply) ← supply.count precisionLimit c.precision
  let width := width.getD 0
  return (⟨c.flags, if width = -Value.wordLimit then 0 else width, precision.map Int.toNat⟩, supply)

/-- The text of a conversion, and the arguments left over. -/
def fill (supply : Supply) (c : Conversion) : Except Error (List Char × Supply) := do
  let supply ← supply.under c.key
  let (style, supply) ← supply.style c
  match c.letter with
  | none => throw .badValue
  | some letter => do
    let (v, supply) ← supply.next
    let parts ← style.convert letter v
    return (← style.layOut parts, supply)

end Supply

/-- The text of the pieces filled with arguments, and the arguments left over. -/
def fillPieces : List Piece → Supply → Except Error (List Char × Supply)
  | [], supply => pure ([], supply)
  | .plain c :: rest, supply => do
    let (text, supply) ← fillPieces rest supply
    return (c :: text, supply)
  | .openKey :: _, supply => throw (if supply.holder.isSome then .badValue else .wrongType)
  | .conversion c :: rest, supply => do
    let (filled, supply) ← supply.fill c
    let (text, supply) ← fillPieces rest supply
    return (filled ++ text, supply)

/-- The template filled with a value. -/
def fill (template : String) (value : Value) : Except Error String := do
  let (text, supply) ← fillPieces (pieces template.toList) (.ofValue value)
  if supply.left.isEmpty || supply.holder.isSome then return String.ofList text
  else throw .wrongType

end Template

end Formulary
