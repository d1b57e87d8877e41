import Formulary.Table
import Formulary.Value.Object

/-!
# Equality and order of values

Numbers of all kinds are equal if their values are, and a truth value is the number one or zero.
Lists and tuples are compared item by item and never equal each other; mappings are equal if they
have the same entries in any order. A tree or cell is equal to itself alone.

Inside lists, tuples and mappings an object is the same as itself even if it is a NaN, which by
itself is not equal to itself: items are compared by `Value.same`.

Only real numbers, texts, lists and tuples have an order. Sequences are ordered by the first place
where they differ.

Mappings find their keys by `Value.same`, so one, one point zero and true are one key.
-/

namespace Formulary

mutual

/-- Whether two values are equal. -/
def Value.equals (v w : Value) : Bool :=
  match v with
  | .object _ content =>
    if content.isOpaque then v.isSameObject w else content.equals w
  | .none => match w.bare with
    | .none => true
    | _ => false
  | .undefined => match w.bare with
    | .undefined => true
    | _ => false
  | .text s => match w.bare with
    | .text t => s == t
    | _ => false
  | .symbol s => match w.bare with
    | .symbol t => s == t
    | _ => false
  | .list xs => match w.bare with
    | .list ys => Value.listEquals xs ys
    | _ => false
  | .tuple xs => match w.bare with
    | .tuple ys => Value.listEquals xs ys
    | _ => false
  | .map es => match w.bare with
    | .map fs => es.length == fs.length && Value.entriesWithin es fs
    | _ => false
  | v =>
    match v.scalar?, w.scalar? with
    | some a, some b => a.equals b
    | _, _ => false

/-- Whether two lists have the same items, one by one. -/
def Value.listEquals : List Value → List Value → Bool
  | [], [] => true
  | v :: vs, w :: ws => (v.isSameObject w || v.equals w) && Value.listEquals vs ws
  | _, _ => false

/-- Whether every entry of the first list has the same one in the second. -/
def Value.entriesWithin : List (Value × Value) → List (Value × Value) → Bool
  | [], _ => true
  | (k, v) :: rest, fs =>
    fs.any (fun f =>
      (k.isSameObject f.1 || k.equals f.1) && (v.isSameObject f.2 || v.equals f.2)) &&
      Value.entriesWithin rest fs

end

/-- Whether two values are the same: one object or equal. -/
def Value.same (v w : Value) : Bool := v.isSameObject w || v.equals w

instance : BEq Value := ⟨Value.same⟩

mutual

/-- How two values compare, or nothing for numbers that do not. -/
def Value.compare? (v w : Value) : Except Error (Option Ordering) :=
  match v with
  | .object _ content => content.compare? w
  | .text s => match w.bare with
    | .text t => pure (some (compare s t))
    | _ => throw .wrongType
  | .list xs => match w.bare with
    | .list ys => Value.compareLists? xs ys
    | _ => throw .wrongType
  | .tuple xs => match w.bare with
    | .tuple ys => Value.compareLists? xs ys
    | _ => throw .wrongType
  | v =>
    match v.scalar?, w.scalar? with
    | some a, some b => a.compare? b
    | _, _ => throw .wrongType

/-- How two lists compare: as the first items that differ, or else as their lengths. -/
def Value.compareLists? : List Value → List Value → Except Error (Option Ordering)
  | [], [] => pure (some .eq)
  | [], _ :: _ => pure (some .lt)
  | _ :: _, [] => pure (some .gt)
  | v :: vs, w :: ws => if v.same w then Value.compareLists? vs ws else v.compare? w

end

/-- Mappings as tables of values. -/
abbrev Mapping := Table Value Value

/-- The different keys among some values, all of which can be looked up. -/
def Mapping.distinctKeys (keys : List Value) : Except Error (List Value) :=
  if Value.allHashable keys then pure (Table.keys (Table.ofPairs (keys.map (·, ()))))
  else throw .wrongType

@[simp] theorem Value.beq_eq_same (v w : Value) : (v == w) = v.same w := rfl

@[simp] theorem Value.equals_text (s t : String) :
    (Value.text s).equals (.text t) = (s == t) := by
  simp [Value.equals, Value.bare]

@[simp] theorem Value.equals_symbol (s t : String) :
    (Value.symbol s).equals (.symbol t) = (s == t) := by
  simp [Value.equals, Value.bare]

@[simp] theorem Value.same_text (s t : String) : (Value.text s).same (.text t) = (s == t) := by
  simp [Value.same, Value.isSameObject, Value.identity?]

@[simp] theorem Value.same_symbol (s t : String) :
    (Value.symbol s).same (.symbol t) = (s == t) := by
  simp [Value.same, Value.isSameObject, Value.identity?]

theorem Value.equals_int (m n : Int) : (Value.int m).equals (.int n) = decide (m = n) := by
  simp [Value.equals, Value.scalar?, Scalar.equals]

end Formulary
