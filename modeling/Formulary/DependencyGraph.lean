import Formulary.Error
import Formulary.Table

/-!
# Dependency graphs

A graph records which names each added name reads, and for each name which added names read it. The
evaluation order takes names whose dependencies are all done from the front of a queue, and puts a
name at its end when the last of its dependencies is taken; names that are never added do not block.
If some names are never released, they are on a circle or behind one.
-/

namespace Formulary

/-- Which names read which: for each added name its dependencies, and for each name its readers. -/
structure DependencyGraph where
  dependencies : Table String (List String)
  dependents : Table String (List String)

namespace DependencyGraph

/-- The graph without names. -/
def empty : DependencyGraph := ⟨[], []⟩

/-- A list with an item at its end, unless it is there already. -/
def including (items : List String) (item : String) : List String :=
  if item ∈ items then items else items ++ [item]

/-- The readers of all names with one reader added to a name. -/
def addReader (dependents : Table String (List String)) (reader name : String) :
    Table String (List String) :=
  Table.insert dependents name (including ((Table.get? dependents name).getD []) reader)

/-- The graph with a name and its dependencies added, each once. -/
def addNode (g : DependencyGraph) (name : String) (dependencies : List String) :
    DependencyGraph where
  dependencies := Table.insert g.dependencies name dependencies.eraseDups
  dependents := dependencies.eraseDups.foldl (addReader · name) g.dependents

/-- The graph of the given names with their dependencies. -/
def ofNodes (nodes : List (String × List String)) : DependencyGraph :=
  nodes.foldl (fun g node => g.addNode node.1 node.2) empty

/-- The added names. -/
def names (g : DependencyGraph) : List String := Table.keys g.dependencies

/-- What a name reads. -/
def dependenciesOf (g : DependencyGraph) (name : String) : List String :=
  (Table.get? g.dependencies name).getD []

/-- Which names read a name. -/
def dependentsOf (g : DependencyGraph) (name : String) : List String :=
  (Table.get? g.dependents name).getD []

/-! ### The evaluation order -/

/-- How many dependencies of each name are still to come. -/
abbrev Waiting := Table String Int

/-- At the start every added dependency is still to come. -/
def waiting (g : DependencyGraph) : Waiting :=
  g.names.map fun name => (name, ((g.dependenciesOf name).filter (· ∈ g.names)).length)

/-- One dependency less is to come for each reader; those for which none is left are released. -/
def release (w : Waiting) : List String → Waiting × List String
  | [] => (w, [])
  | reader :: readers =>
    let left := (Table.get? w reader).getD 0 - 1
    let (w, released) := release (Table.insert w reader left) readers
    (w, if left = 0 then reader :: released else released)

/-- The names taken from a queue, at most `bound` of them. -/
def takeFrom (g : DependencyGraph) : Nat → List String → Waiting → List String
  | 0, _, _ | _, [], _ => []
  | bound + 1, name :: queue, w =>
    let (w, released) := release w ((g.dependentsOf name).filter (· ∈ g.names))
    name :: takeFrom g bound (queue ++ released) w

/-- The names that can be taken, in order. No name is released twice, so there are at most as many
as were added. -/
def released (g : DependencyGraph) : List String :=
  let w := g.waiting
  takeFrom g g.names.length (g.names.filter fun name => (Table.get? w name).getD 0 = 0) w

/-- The added names in evaluation order; if some are not released, the failure lists them. -/
def order (g : DependencyGraph) : Except Error (List String) :=
  let taken := g.released
  if taken.length = g.names.length then pure taken
  else throw (.circular (g.names.filter (· ∉ taken)))

end DependencyGraph

end Formulary
