import Formulary.Value.Basic

/-!
# Texts of values and expressions

A value has two texts. `Value.shown` is the one that tells kinds apart: texts are quoted, numbers
with a point keep it, and an expression is shown as its tree. `Value.display` is the one that a
formula sees: a text stands for itself and a symbol for its name, and every other value is shown.
-/

namespace Formulary

/-- The items between brackets, with a comma between each two. -/
def bracketed (left : String) (items : List String) (right : String) : String :=
  left ++ commaSeparated items ++ right

/-- A name applied to its parts. -/
def application (name : String) (parts : List String) : String :=
  name ++ bracketed "(" parts ")"

/-- A list of names as a list of texts is shown. -/
def shownNames (names : List String) : String := bracketed "[" (names.map Text.quote) "]"

mutual

/-- A value as it is shown. -/
def Value.shown : Value → String
  | .none => "None"
  | .bool b => if b then "True" else "False"
  | .int n => toString n
  | .float x => x.text
  | .complex z => z.text
  | .text s => Text.quote s
  | .list items => bracketed "[" (Value.shownAll items) "]"
  | .tuple [item] => "(" ++ item.shown ++ ",)"
  | .tuple items => bracketed "(" (Value.shownAll items) ")"
  | .map entries => bracketed "\x7b" (Value.shownEntries entries) "\x7d"
  | .symbol name => application "Symbol" [Text.quote name]
  | .undefined => "UNDEFINED"
  | .node e => e.shown
  | .cell .. => "<cell>"
  | .object _ content => content.shown

/-- Every value of a list as it is shown. -/
def Value.shownAll : List Value → List String
  | [] => []
  | v :: vs => v.shown :: Value.shownAll vs

/-- Every entry of a mapping as it is shown. -/
def Value.shownEntries : List (Value × Value) → List String
  | [] => []
  | (k, v) :: rest => (k.shown ++ ": " ++ v.shown) :: Value.shownEntries rest

/-- An expression as it is shown. -/
def Expr.shown : Expr → String
  | .literal v => application "Literal" [v.shown]
  | .identifier name => application "Identifier" [Text.quote name]
  | .keyed key => application "Identifier" [key.shown]
  | .negation e => application "Negation" [e.shown]
  | .binary op l r => application "BinaryOperation" [Text.quote op.symbol, l.shown, r.shown]
  | .call f args =>
    application "FunctionCall" [Text.quote f.name, bracketed "[" (Expr.shownAll args) "]"]
  | .choice c t e => application "If" [c.shown, t.shown, e.shown]
  | .given result needs => application "ConstNode" [result.shown, shownNames needs]
  | .asking f needs => application "AskingNode" [Text.quote f.name, shownNames needs]

/-- Every expression of a list as it is shown. -/
def Expr.shownAll : List Expr → List String
  | [] => []
  | e :: es => e.shown :: Expr.shownAll es

end

/-- The text that a value stands for in a formula. -/
def Value.display : Value → String
  | .text s => s
  | .symbol name => name
  | .object _ content => content.display
  | v => v.shown

@[simp] theorem Value.display_text (s : String) : (Value.text s).display = s := rfl

@[simp] theorem Value.display_symbol (name : String) : (Value.symbol name).display = name := rfl

/-- The operator that a value names; a value that cannot be looked up is of the wrong type. -/
def Operator.ofValue (v : Value) : Except Error Operator :=
  match v.text?.bind Operator.ofSymbol? with
  | some op => pure op
  | none => throw (if v.isHashable then .unknownOperator v.shown else .wrongType)

/-- The failure of a kind that is built from parts, and the names it reports: for missing names
these names and an optional wording, and for the other kinds what its wording is made of. Names that
are no texts need a wording, since none can be made of them. -/
def Error.ofParts (kind : ErrorKind) (parts : List Value) : Except Error (Error × List Value) :=
  match kind, parts with
  | .unbound, names :: rest =>
    match names.elements?, rest.map Value.bare with
    | some names, [] | some names, [.none] =>
      match names.mapM Value.text? with
      | some texts => pure (.unbound texts Option.none, names)
      | Option.none => throw .wrongType
    | some names, [wording] =>
      pure (.unbound (names.map Value.display) (some wording.display), names)
    | _, _ => throw .wrongType
  | .unbound, [] => throw .wrongType
  | kind, [] => pure (.worded kind "", [])
  | kind, [part] => pure (.worded kind part.display, [])
  | kind, parts => pure (.worded kind (Value.tuple parts).shown, [])

@[simp] theorem Operator.ofValue_symbol (op : Operator) :
    Operator.ofValue (.text op.symbol) = .ok op := by
  simp [Operator.ofValue, Value.text?, pure, Except.pure]

end Formulary
