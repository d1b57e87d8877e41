import Formulary.Value.Printer

/-!
# Building single nodes

A node may be built directly over literal operands, without a text. Only an operator that exists can
be built, and a node of no particular kind has no value.
-/

namespace Formulary

/-- The kinds of nodes that can be built over literals. -/
inductive NodeKind
  | binary (symbol : Value)
  | negation
  | choice
  | bare

/-- The node of a kind over literal operands. -/
def Expr.build (kind : NodeKind) (operands : List Value) : Except Error Expr :=
  match kind, operands with
  | .binary symbol, [v, w] => do
    return .binary (← Operator.ofValue symbol) (.literal v) (.literal w)
  | .negation, [v] => pure (.negation (.literal v))
  | .choice, [c, t, e] => pure (.choice (.literal c) (.literal t) (.literal e))
  | .bare, _ => throw .unimplemented
  | _, _ => throw .wrongType

end Formulary
