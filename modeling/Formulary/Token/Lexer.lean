import Formulary.Error
import Formulary.Token.Lexeme

/-!
# From text to tokens

The lexer passes over blanks and takes one lexeme after the other; where neither a blank nor a
lexeme starts, it reports the character and its place. The text that is left gets shorter with every
step, so it always ends.
-/

namespace Formulary

namespace Token

/-- The token that a lexeme at a position spells. -/
def ofLexeme (l : Lexeme) (position : Nat) : Token := ⟨l.kind, l.value, position⟩

/-- The tokens of the rest of a text that starts at a position of the whole. -/
def scanFrom (options : LexerOptions) (whole : String) (position : Nat) (text : List Char) :
    Except Error (List Token) :=
  match text with
  | [] => pure []
  | c :: rest =>
    if Text.isBlank c then scanFrom options whole (position + 1) rest
    else
      match _found : Lexeme.first? options (c :: rest) with
      | none => throw (.unexpectedCharacter c position whole)
      | some l => do
        let tokens ← scanFrom options whole (position + l.spelling.length)
          ((c :: rest).drop l.spelling.length)
        return ofLexeme l position :: tokens
termination_by text.length
decreasing_by
  · simp
  · have := List.length_pos_iff.2 (Lexeme.spelling_ne_nil _found)
    simp only [List.length_drop, List.length_cons]
    omega

/-- The tokens of a text. -/
def scan (options : LexerOptions) (text : String) : Except Error (List Token) :=
  scanFrom options text 0 text.toList

end Token

end Formulary
