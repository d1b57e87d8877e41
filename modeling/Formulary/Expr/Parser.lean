import Formulary.Token.Lexer
import Formulary.Value.Printer

/-!
# From tokens to expressions

The grammar, loosest level first:

* a comparison is an additive expression, or two with a comparator between them;
* additive expressions join multiplicative ones by `+`, `-` and `&`, grouped from the left;
* multiplicative expressions join powers by `*`, `/` and `%`, grouped from the left;
* a power is a signed expression, or one with `^` and a power after it;
* a signed expression is a primary one with signs before it;
* a primary expression is a literal, an identifier, a function call, or a comparison in parentheses.

A minus directly before a number or truth value is folded into the literal, unless the options say
otherwise. `IF` is a choice of two or three arguments, and every other function must be known and
accept the number of arguments it is given.

Each grammar level is a function on the tokens that are left, with a bound on the nesting of calls.
`Expr.ofTokens` gives a bound that the number of tokens makes sufficient.
-/

namespace Formulary

/-- What parsing depends on: which functions are known, and whether signs are folded into
literals. -/
structure ParserOptions where
  find? : String → Option Function
  foldsSigns : Bool

namespace Parser

/-! ### Single tokens -/

/-- The text of a token of the given kind. -/
def textOf? (kind : Token.Kind) (t : Token) : Option String :=
  if t.kind = kind then t.value.text? else none

/-- The operator of a token among the given ones. -/
def operatorAmong (operators : List Operator) (t : Token) : Option Operator :=
  (textOf? .operator t).bind fun s => operators.find? (·.symbol == s)

/-- The failure of a token that may not stand where it stands. -/
def unexpected (t : Token) : Error := .parse (.unexpected t.value.shown t.position)

/-- The tokens after one of a punctuation kind, which must come next. -/
def expect (kind : Token.Kind) (wanted : Char) : List Token → Except Error (List Token)
  | t :: rest =>
    if t.kind = kind then pure rest else throw (.parse (.missing wanted (some t.value.shown)))
  | [] => throw (.parse (.missing wanted none))

/-! ### Building expressions -/

/-- The expression with its sign changed; a literal number or truth value changes itself if signs
are folded. -/
def negated (folds : Bool) (e : Expr) : Expr :=
  match e with
  | .literal v =>
    match if folds then v.number? else none with
    | some a => .literal (.ofNumber a.neg)
    | none => .negation e
  | e => .negation e

/-- The expression that reads what is bound to a value. -/
def reference (v : Value) : Expr :=
  match v.text? with
  | some name => .identifier name
  | none => .keyed v

/-- The name of a function, which must be a text. -/
def functionName (t : Token) : Except Error String :=
  match t.value.text? with
  | some name => pure name
  | none => throw .missingPart

/-- The choice or call of a function on arguments. -/
def application (options : ParserOptions) (name : String) (args : List Expr) :
    Except Error Expr :=
  if name = "IF" then
    match args with
    | [c, t] => pure (.choice c t (.literal (.bool false)))
    | [c, t, e] => pure (.choice c t e)
    | _ => throw (.parse (.choiceCount args.length))
  else match options.find? name with
    | none => throw (.parse (.undefinedFunction name))
    | some f =>
      if f.accepts args.length then pure (.call f args)
      else throw (.parse (.argumentCount name args.length))

/-! ### The grammar -/

/-- The operators of the additive level. -/
def additiveOperators : List Operator := [.add, .sub, .concat]

/-- The operators of the multiplicative level. -/
def multiplicativeOperators : List Operator := [.mul, .div, .mod]

mutual

/-- A comparison at the start of the tokens, and the tokens after it. -/
def comparison (options : ParserOptions) : Nat → List Token → Except Error (Expr × List Token)
  | 0, _ => throw .tooDeep
  | bound + 1, tokens => do
    let (left, tokens) ← additive options bound tokens
    match tokens with
    | t :: rest =>
      if t.kind = .comparator then do
        let (right, tokens) ← additive options bound rest
        return (.binary (← Operator.ofValue t.value) left right, tokens)
      else return (left, tokens)
    | [] => return (left, [])

/-- An additive expression. -/
def additive (options : ParserOptions) : Nat → List Token → Except Error (Expr × List Token)
  | 0, _ => throw .tooDeep
  | bound + 1, tokens => do
    let (left, tokens) ← multiplicative options bound tokens
    additiveTail options bound left tokens

/-- The rest of an additive expression after its left operand. -/
def additiveTail (options : ParserOptions) :
    Nat → Expr → List Token → Except Error (Expr × List Token)
  | 0, _, _ => throw .tooDeep
  | _ + 1, left, [] => return (left, [])
  | bound + 1, left, t :: rest =>
    match operatorAmong additiveOperators t with
    | some op => do
      let (right, tokens) ← multiplicative options bound rest
      additiveTail options bound (.binary op left right) tokens
    | none => return (left, t :: rest)

/-- A multiplicative expression. -/
def multiplicative (options : ParserOptions) :
    Nat → List Token → Except Error (Expr × List Token)
  | 0, _ => throw .tooDeep
  | bound + 1, tokens => do
    let (left, tokens) ← power options bound tokens
    multiplicativeTail options bound left tokens

/-- The rest of a multiplicative expression after its left operand. -/
def multiplicativeTail (options : ParserOptions) :
    Nat → Expr → List Token → Except Error (Expr × List Token)
  | 0, _, _ => throw .tooDeep
  | _ + 1, left, [] => return (left, [])
  | bound + 1, left, t :: rest =>
    match operatorAmong multiplicativeOperators t with
    | some op => do
      let (right, tokens) ← power options bound rest
      multiplicativeTail options bound (.binary op left right) tokens
    | none => return (left, t :: rest)

/-- A power. -/
def power (options : ParserOptions) : Nat → List Token → Except Error (Expr × List Token)
  | 0, _ => throw .tooDeep
  | bound + 1, tokens => do
    let (base, tokens) ← signed options bound tokens
    match tokens with
    | t :: rest =>
      match operatorAmong [.pow] t with
      | some op => do
        let (exponent, tokens) ← power options bound rest
        return (.binary op base exponent, tokens)
      | none => return (base, tokens)
    | [] => return (base, [])

/-- A signed expression. -/
def signed (options : ParserOptions) : Nat → List Token → Except Error (Expr × List Token)
  | 0, _ => throw .tooDeep
  | bound + 1, tokens =>
    match tokens with
    | t :: rest =>
      match operatorAmong [.sub, .add] t with
      | some .sub => do
        let (operand, tokens) ← signed options bound rest
        return (negated options.foldsSigns operand, tokens)
      | some _ => signed options bound rest
      | none => primary options bound tokens
    | [] => primary options bound []

/-- A primary expression. -/
def primary (options : ParserOptions) : Nat → List Token → Except Error (Expr × List Token)
  | 0, _ => throw .tooDeep
  | _ + 1, [] => throw (.parse .unexpectedEnd)
  | bound + 1, t :: rest =>
    match t.kind with
    | .number | .string | .boolean => return (.literal t.value, rest)
    | .identifier => return (reference t.value, rest)
    | .function => do
      let (args, tokens) ← arguments options bound rest
      return (← application options (← functionName t) args, tokens)
    | .leftParen => do
      let (e, tokens) ← comparison options bound rest
      return (e, ← expect .rightParen ')' tokens)
    | _ => throw (unexpected t)

/-- The arguments of a call in their parentheses. -/
def arguments (options : ParserOptions) :
    Nat → List Token → Except Error (List Expr × List Token)
  | 0, _ => throw .tooDeep
  | bound + 1, tokens => do
    match ← expect .leftParen '(' tokens with
    | [] => argumentList options bound []
    | t :: rest =>
      if t.kind = .rightParen then return ([], rest) else argumentList options bound (t :: rest)

/-- At least one argument, up to the closing parenthesis. -/
def argumentList (options : ParserOptions) :
    Nat → List Token → Except Error (List Expr × List Token)
  | 0, _ => throw .tooDeep
  | bound + 1, tokens => do
    let (first, tokens) ← comparison options bound tokens
    match tokens with
    | t :: rest =>
      if t.kind = .comma then do
        let (others, tokens) ← argumentList options bound rest
        return (first :: others, tokens)
      else return ([first], ← expect .rightParen ')' tokens)
    | [] => return ([first], ← expect .rightParen ')' [])

end

/-- A bound on the nesting of calls that is never reached: between two calls on the same tokens
there are fewer than eight levels. -/
def sufficientBound (tokens : List Token) : Nat := 8 * (tokens.length + 1)

end Parser

/-- The expression that a list of tokens forms. -/
def Expr.ofTokens (options : ParserOptions) (tokens : List Token) : Except Error Expr := do
  if tokens.isEmpty then throw (.parse .empty)
  let (e, rest) ← Parser.comparison options (Parser.sufficientBound tokens) tokens
  match rest with
  | [] => return e
  | t :: _ => throw (Parser.unexpected t)

/-- The expression that a text spells. -/
def Expr.ofText (lexer : LexerOptions) (parser : ParserOptions) (text : String) :
    Except Error Expr := do
  Expr.ofTokens parser (← Token.scan lexer text)

end Formulary
