import Formulary.Value.Equality

/-!
# Free keys

A list of tokens from outside may have identifiers that are no texts. The expression that it forms
is evaluated against a mapping, where an identifier reads what is bound to it as a key. `freeKeys`
lists the keys that an expression reads like `freeNames` lists names: in first-use order and, as
soon as several expressions meet in one, without repetition. That takes keys that can be looked up,
so an expression with other ones in a larger one has no list of keys.
-/

namespace Formulary

mutual

/-- The free keys of an expression, given what each key stands for. -/
def Expr.freeKeysBy (behind : Value → Except Error (List Value)) :
    Expr → Except Error (List Value)
  | .literal _ => pure []
  | .identifier name => behind (.text name)
  | .keyed key => behind key
  | .negation e => do Mapping.distinctKeys (← e.freeKeysBy behind)
  | .binary _ l r => do
    Mapping.distinctKeys ((← l.freeKeysBy behind) ++ (← r.freeKeysBy behind))
  | .call _ args => do Mapping.distinctKeys (← Expr.allFreeKeysBy behind args)
  | .choice c t e => do
    Mapping.distinctKeys
      ((← c.freeKeysBy behind) ++ (← t.freeKeysBy behind) ++ (← e.freeKeysBy behind))
  | .given _ needs | .asking _ needs => pure (needs.map .text)

/-- The free keys of several expressions one after the other. -/
def Expr.allFreeKeysBy (behind : Value → Except Error (List Value)) :
    List Expr → Except Error (List Value)
  | [] => pure []
  | e :: es => do return (← e.freeKeysBy behind) ++ (← Expr.allFreeKeysBy behind es)

end

/-- What is bound to a key, which must be one that can be looked up. -/
def Mapping.lookup (bindings : Mapping) (key : Value) : Except Error (Option Value) :=
  if key.isHashable then pure (Table.get? bindings key) else throw .wrongType

/-- The free keys that a key stands for when at most `depth` formulas may be open. -/
def Mapping.keysBehind (bindings : Mapping) : Nat → Value → Except Error (List Value)
  | depth, key => do
    match ← bindings.lookup key with
    | none => return [key]
    | some v =>
      match v.expr?, depth with
      | none, _ => return []
      | some _, 0 => throw .tooDeep
      | some e, depth + 1 => e.freeKeysBy (keysBehind bindings depth)

/-- The keys that an expression reads, whatever is bound. -/
def Expr.freeKeys (e : Expr) : Except Error (List Value) := e.freeKeysBy fun key => pure [key]

/-- The keys that an expression reads and to which nothing is bound. -/
def Expr.freeKeysIn (bindings : Mapping) (e : Expr) : Except Error (List Value) :=
  e.freeKeysBy (bindings.keysBehind bindings.length)

@[simp] theorem Expr.freeKeys_identifier (name : String) :
    (Expr.identifier name).freeKeys = .ok [.text name] := by
  simp [freeKeys, freeKeysBy, pure, Except.pure]

@[simp] theorem Expr.freeKeys_keyed (key : Value) : (Expr.keyed key).freeKeys = .ok [key] := by
  simp [freeKeys, freeKeysBy, pure, Except.pure]

end Formulary
