import Formulary.Table
import Formulary.Text.Blank
import Formulary.Text.Digit
import Formulary.Text.LetterCase
import Formulary.Token.Basic

/-!
# Lexemes

A lexeme is a stretch of text that spells one token. Each kind has a reader that finds the longest
lexeme of the kind at the start of a text: numbers, quoted texts, names, comparisons, operators and
punctuation. What a text may start with tells the kinds apart, so at most one reader applies.

A lexeme has at least one character (`spelling_ne_nil`).
-/

namespace Formulary

/-- How names are read: whether letter case counts, and which function names stand for which. -/
structure LexerOptions where
  caseSensitive : Bool
  aliases : Table String String

/-- Case does not count and there are no aliases. -/
def LexerOptions.plain : LexerOptions := ⟨false, []⟩

/-- A stretch of text that spells a token of a kind with a value. -/
structure Lexeme where
  kind : Token.Kind
  value : Value
  spelling : List Char

namespace Lexeme

/-! ### Numbers -/

/-- The parts of a numeral: the digits before the point, those after it if there is a point, and
the exponent's sign and digits with the mark before them if there is an exponent. -/
structure Numeral where
  whole : List Char
  fraction : Option (List Char)
  exponent : Option (Char × List Char × List Char)

/-- The characters of a numeral. -/
def Numeral.spelling (n : Numeral) : List Char :=
  n.whole ++ (match n.fraction with
    | some digits => '.' :: digits
    | none => []) ++ (match n.exponent with
    | some (mark, sign, digits) => mark :: (sign ++ digits)
    | none => [])

/-- The value of a numeral: an integer if it is digits only, else the nearest floating-point
number. -/
def Numeral.value (n : Numeral) : Value :=
  match n.fraction, n.exponent with
  | none, none => .int (Text.naturalOf n.whole)
  | fraction, exponent =>
    let power : Int := match exponent with
      | some (_, sign, digits) =>
        if sign = ['-'] then -(Text.naturalOf digits : Int) else Text.naturalOf digits
      | none => 0
    .float ((Decimal.ofDigits n.whole (fraction.getD []) power).toBinary64 false)

/-- The exponent at the start of a text: a mark, an optional sign and digits. -/
def exponent? : List Char → Option (Char × List Char × List Char)
  | mark :: rest =>
    if mark = 'e' ∨ mark = 'E' then
      let sign := match rest with
        | '-' :: _ => ['-']
        | '+' :: _ => ['+']
        | _ => []
      let digits := (rest.drop sign.length).takeWhile Text.isDigit
      if digits.isEmpty then none else some (mark, sign, digits)
    else none
  | [] => none

/-- The numeral at the start of a text: digits with an optional point, or a point and digits, and
then an optional exponent. -/
def numeral? (text : List Char) : Option Numeral :=
  let whole := text.takeWhile Text.isDigit
  match text.dropWhile Text.isDigit with
  | '.' :: rest =>
    let fraction := rest.takeWhile Text.isDigit
    if whole.isEmpty && fraction.isEmpty then none
    else some ⟨whole, some fraction, exponent? (rest.dropWhile Text.isDigit)⟩
  | rest => if whole.isEmpty then none else some ⟨whole, none, exponent? rest⟩

/-- The number at the start of a text. -/
def number? (text : List Char) : Option Lexeme :=
  (numeral? text).map fun n => ⟨.number, n.value, n.spelling⟩

/-! ### Quoted texts -/

/-- What stands before the closing quote, as it is meant and as it is spelt with the quote. A
backslash makes the next character stand for itself; a line feed cannot follow it. -/
def untilQuote (quote : Char) : List Char → Option (List Char × List Char)
  | [] => none
  | [c] => if c = quote then some ([], [c]) else none
  | c :: d :: rest =>
    if c = quote then some ([], [c])
    else if c = '\\' then
      if d = '\n' then none
      else (untilQuote quote rest).map fun (meant, spelt) => (d :: meant, c :: d :: spelt)
    else (untilQuote quote (d :: rest)).map fun (meant, spelt) => (c :: meant, c :: spelt)

/-- The quoted text at the start of a text. -/
def quoted? : List Char → Option Lexeme
  | c :: rest =>
    if c = '"' ∨ c = '\'' then
      (untilQuote c rest).map fun (meant, spelt) =>
        ⟨.string, .text (String.ofList meant), c :: spelt⟩
    else none
  | [] => none

/-! ### Names -/

/-- The ASCII letters and the underscore start a name. -/
def startsName (c : Char) : Bool := c.isAlpha || c == '_'

/-- A name goes on with ASCII letters, digits and underscores. -/
def continuesName (c : Char) : Bool := c.isAlphanum || c == '_'

/-- The rest of a name: word characters, and points that a word character follows. -/
def nameTail : List Char → List Char
  | [] => []
  | c :: rest =>
    if continuesName c || (c == '.' && rest.head?.any continuesName) then c :: nameTail rest
    else []

/-- Whether an opening parenthesis is the next character that is not blank. -/
def opensCall (text : List Char) : Bool := (text.dropWhile Text.isBlank).head? == some '('

/-- The token that a name stands for. Before a parenthesis it is a function's name, upper case and
looked up among the aliases; the truth values are names without case; and all other names are
identifiers, lower case unless case counts. -/
def nameToken (options : LexerOptions) (spelling : List Char) (opens : Bool) :
    Token.Kind × Value :=
  let lower := String.ofList (Text.lower spelling)
  let upper := String.ofList (Text.upper spelling)
  if opens then (.function, .text ((Table.get? options.aliases upper).getD upper))
  else if lower = "true" ∨ lower = "false" then (.boolean, .bool (lower = "true"))
  else (.identifier, .text (if options.caseSensitive then String.ofList spelling else lower))

/-- The name at the start of a text. -/
def name? (options : LexerOptions) : List Char → Option Lexeme
  | [] => none
  | c :: rest =>
    if startsName c then
      let tail := nameTail rest
      let (kind, value) := nameToken options (c :: tail) (opensCall (rest.drop tail.length))
      some ⟨kind, value, c :: tail⟩
    else none

/-! ### Signs -/

/-- A sign: a lexeme of fixed spelling, with the text it stands for. -/
def sign (kind : Token.Kind) (spelling meaning : String) : Lexeme :=
  ⟨kind, .text meaning, spelling.toList⟩

/-- The sign at the start of a text; a comparison of two characters goes before one of one. -/
def sign? : List Char → Option Lexeme
  | '(' :: _ => some (sign .leftParen "(" "(")
  | ')' :: _ => some (sign .rightParen ")" ")")
  | ',' :: _ => some (sign .comma "," ",")
  | '<' :: '=' :: _ => some (sign .comparator "<=" "<=")
  | '>' :: '=' :: _ => some (sign .comparator ">=" ">=")
  | '<' :: '>' :: _ => some (sign .comparator "<>" "<>")
  | '!' :: '=' :: _ => some (sign .comparator "!=" "<>")
  | '=' :: '=' :: _ => some (sign .comparator "==" "=")
  | '=' :: _ => some (sign .comparator "=" "=")
  | '<' :: _ => some (sign .comparator "<" "<")
  | '>' :: _ => some (sign .comparator ">" ">")
  | '-' :: _ => some (sign .operator "-" "-")
  | '+' :: _ => some (sign .operator "+" "+")
  | '*' :: _ => some (sign .operator "*" "*")
  | '/' :: _ => some (sign .operator "/" "/")
  | '%' :: _ => some (sign .operator "%" "%")
  | '^' :: _ => some (sign .operator "^" "^")
  | '&' :: _ => some (sign .operator "&" "&")
  | _ => none

/-! ### All kinds -/

/-- The lexeme at the start of a text. -/
def first? (options : LexerOptions) (text : List Char) : Option Lexeme :=
  (number? text).or ((quoted? text).or ((name? options text).or (sign? text)))

/-! ### Small facts -/

theorem numeral?_spelling_ne_nil {text : List Char} {n : Numeral} (h : numeral? text = some n) :
    n.spelling ≠ [] := by
  simp only [numeral?] at h
  split at h
  · split at h
    · cases h
    · cases h; simp [Numeral.spelling]
  · split at h
    · cases h
    · next hw =>
      cases h
      simp only [Numeral.spelling, ne_eq, List.append_eq_nil_iff, not_and]
      intro hn
      simp [hn.1] at hw

theorem sign?_spelling_ne_nil {text : List Char} {l : Lexeme} (h : sign? text = some l) :
    l.spelling ≠ [] := by
  unfold sign? at h
  split at h <;> simp only [Option.some.injEq, reduceCtorEq] at h <;> subst h <;> simp [sign]

theorem spelling_ne_nil {options : LexerOptions} {text : List Char} {l : Lexeme}
    (h : first? options text = some l) : l.spelling ≠ [] := by
  simp only [first?, Option.or_eq_some_iff] at h
  rcases h with h | ⟨-, h | ⟨-, h | ⟨-, h⟩⟩⟩
  · obtain ⟨n, hn, rfl⟩ := Option.map_eq_some_iff.1 h
    exact numeral?_spelling_ne_nil hn
  · unfold quoted? at h
    split at h
    · split at h
      · obtain ⟨p, -, rfl⟩ := Option.map_eq_some_iff.1 h
        simp
      · cases h
    · cases h
  · unfold name? at h
    split at h
    · cases h
    · split at h
      · cases h; simp
      · cases h
  · exact sign?_spelling_ne_nil h

end Lexeme

end Formulary
