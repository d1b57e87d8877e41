import Formulary.Mapping.Path

/-!
# Flat and nested mappings

Flattening a nested mapping lists its leaves, the values that are not mappings, under the keys that
their paths are written as. Expanding builds the nested mapping again from a flat one, entry by
entry: what stands in the way of a path is replaced, so of two entries that exclude each other the
later one wins.

`leaves` is the view of a nested mapping: flattening is defined through it, and an empty nested
mapping has no leaves.
-/

namespace Formulary

mutual

/-- The leaves of a value at the end of a path, each with its own path, in document order. -/
def Value.leavesAt (path : List Value) : Value → List (List Value × Value)
  | .map entries => Mapping.leavesAt path entries
  | .object identity content =>
    if content.isMap then content.leavesAt path else [(path, .object identity content)]
  | v => [(path, v)]

/-- The leaves of all entries of a mapping at the end of a path. -/
def Mapping.leavesAt (path : List Value) : List (Value × Value) → List (List Value × Value)
  | [] => []
  | (k, v) :: rest => v.leavesAt (path ++ [k]) ++ Mapping.leavesAt path rest

end

namespace Mapping

/-- The leaves of a nested mapping with their paths, in document order. -/
def leaves (nested : Mapping) : List (List Value × Value) := leavesAt [] nested

/-- The flat mapping of the leaves of a nested one. -/
def flatten (nested : Mapping) : Mapping :=
  Table.ofPairs (nested.leaves.map fun leaf => (Path.toKey leaf.1, leaf.2))

/-- The flat mapping, unless the caller promises that the mapping is flat already. -/
def flattenUnless (promised : Bool) (nested : Mapping) : Mapping :=
  if promised then nested else flatten nested

/-- The nested mapping that a key holds; one that holds none counts as empty. -/
def child (entries : Mapping) (key : Value) : Mapping :=
  ((Table.get? entries key).bind Value.entries?).getD []

/-- The mapping with a value written at the end of a path. -/
def insertAt (entries : Mapping) : List Value → Value → Mapping
  | [], _ => entries
  | [key], value => Table.insert entries key value
  | key :: path, value => Table.insert entries key (.map (insertAt (child entries key) path value))

/-- The nested mapping of a flat one. -/
def expand (flat : Mapping) : Mapping :=
  flat.foldl (fun nested entry => insertAt nested (Path.ofKey entry.1) entry.2) []

@[simp] theorem leaves_nil : leaves [] = [] := rfl

theorem flattenUnless_false (nested : Mapping) : flattenUnless false nested = flatten nested := rfl

end Mapping

end Formulary
