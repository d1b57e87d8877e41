import Formulary.Value.Basic

/-!
# Tokens

A token is what the parser reads: its kind, the value it spells and the place in the text where it
starts, counted in characters from zero. A list of tokens may also come from outside, so a token
may have an unknown kind, any value and any place.
-/

namespace Formulary

/-- The kinds of tokens. -/
inductive Token.Kind
  | number
  | string
  | boolean
  | identifier
  | function
  | operator
  | comparator
  | leftParen
  | rightParen
  | comma
  | unknown (name : String)
  deriving DecidableEq, Repr

/-- A token. -/
structure Token where
  kind : Token.Kind
  value : Value
  position : Int

namespace Token

/-- The kinds that the lexer knows, with their names. -/
def Kind.named : List (String × Kind) :=
  [("number", .number), ("string", .string), ("boolean", .boolean), ("identifier", .identifier),
   ("function", .function), ("operator", .operator), ("comparator", .comparator),
   ("lparen", .leftParen), ("rparen", .rightParen), ("comma", .comma)]

/-- The kind of a name. -/
def Kind.ofName (name : String) : Kind := (Kind.named.lookup name).getD (.unknown name)

/-- The name of a kind. -/
def Kind.name : Kind → String
  | .number => "number"
  | .string => "string"
  | .boolean => "boolean"
  | .identifier => "identifier"
  | .function => "function"
  | .operator => "operator"
  | .comparator => "comparator"
  | .leftParen => "lparen"
  | .rightParen => "rparen"
  | .comma => "comma"
  | .unknown name => name

theorem Kind.name_of_mem_named {entry : String × Kind} (h : entry ∈ named) :
    entry.2.name = entry.1 := by
  simp only [named, List.mem_cons, List.not_mem_nil, or_false] at h
  rcases h with rfl | rfl | rfl | rfl | rfl | rfl | rfl | rfl | rfl | rfl <;> rfl

end Token

end Formulary
