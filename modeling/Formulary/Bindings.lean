import Formulary.Expr.FreeNames
import Formulary.Mapping.Flatten
import Formulary.Text.LetterCase

/-!
# Bindings

Bindings give names values. A key of any kind names by its text, in lower case unless case counts;
a nested mapping names each of its leaves by the written form of its path, unless the caller
promises that mappings are flat. Writing for a while is `enter` and `leave`: leaving brings the
memory back as it was, whatever happened in between.
-/

namespace Formulary

/-- Names with their values and the way in which keys become names. -/
structure Bindings where
  caseSensitive : Bool
  ignoreNested : Bool
  memory : Memory

namespace Bindings

/-- Bindings without names. -/
def empty (caseSensitive ignoreNested : Bool) : Bindings := ⟨caseSensitive, ignoreNested, []⟩

/-- The name that a key stands for. -/
def normalize (b : Bindings) (key : Value) : String :=
  if b.caseSensitive then key.display else Text.lowerCase key.display

/-! ### Writing -/

/-- The bindings with a key's value written. -/
def write (b : Bindings) (key value : Value) : Bindings :=
  { b with memory := Table.insert b.memory (b.normalize key) value }

/-- The entries that a mapping writes, in order. -/
def entriesOf (b : Bindings) (data : Mapping) : List (String × Value) :=
  (data.flattenUnless b.ignoreNested).map fun entry => (b.normalize entry.1, entry.2)

/-- The bindings with the leaves of a mapping written. -/
def writeAll (b : Bindings) (data : Mapping) : Bindings :=
  { b with memory := Table.insertAll b.memory (b.entriesOf data) }

/-- The bindings with one value written, or without a value with a whole mapping written. -/
def store (b : Bindings) (key : Value) (value : Option Value) : Except Error Bindings :=
  match value, key.entries? with
  | some v, _ => pure (b.write key v)
  | none, some data => pure (b.writeAll data)
  | none, none => throw (.notMapping key.shown)

/-- The bindings without names. -/
def clear (b : Bindings) : Bindings := { b with memory := [] }

/-! ### Reading -/

/-- The value of a key. -/
def get? (b : Bindings) (key : Value) : Option Value := Table.get? b.memory (b.normalize key)

/-- Whether a value can be a key of a mapping. -/
def canBeKey (v : Value) : Bool :=
  match v.bare with
  | .list _ | .map _ => false
  | _ => true

/-- Whether a key names a value. -/
def has (b : Bindings) (key : Value) : Bool := canBeKey key && (b.get? key).isSome

/-- The names, in the order in which they were bound. -/
def names (b : Bindings) : List String := Table.keys b.memory

/-- The bindings as they are shown. -/
def shown (b : Bindings) : String :=
  application "BindingStore"
    [(Value.map (b.memory.map fun entry => (.text entry.1, entry.2))).shown]

/-! ### Writing for a while -/

/-- The bindings inside a scope that writes a value or a mapping. -/
def enter (b : Bindings) (key : Value) (value : Option Value) : Except Error Bindings :=
  b.store key value

/-- The bindings after a scope that was entered from `before` and ended in `inside`. -/
def leave (before inside : Bindings) : Bindings := { inside with memory := before.memory }

@[simp] theorem memory_leave (before inside : Bindings) :
    (leave before inside).memory = before.memory := rfl

theorem get?_write (b : Bindings) (key value other : Value) :
    (b.write key value).get? other =
      if b.normalize key == b.normalize other then some value else b.get? other :=
  Table.get?_insert ..

end Bindings

end Formulary
