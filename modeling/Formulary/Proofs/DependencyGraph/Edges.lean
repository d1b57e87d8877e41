import Formulary.Proofs.DependencyGraph
import Mathlib.Data.List.Induction

/-!
# Names added again

A name may be added again with other dependencies. Then the new dependencies take the place of the
old ones where the name's own dependencies are recorded, but the records of its readers only grow:
a name that was once added with a dependency stays a reader of it. So the two records agree just if
no name was added again without a dependency that it had before (`edges_ofNodes`), and in particular
if all names are different.
-/

namespace Formulary

namespace DependencyGraph

variable {nodes : List (String × List String)} {name d : String}

theorem ofNodes_concat (nodes : List (String × List String)) (name : String)
    (dependencies : List String) :
    ofNodes (nodes ++ [(name, dependencies)]) = (ofNodes nodes).addNode name dependencies := by
  rw [ofNodes, List.foldl_append]
  rfl

/-! ### The dependencies of a name -/

/-- The dependencies that a name was given with last; without any it has none. -/
def lastDependencies (nodes : List (String × List String)) (name : String) : List String :=
  (Table.get? nodes.reverse name).getD []

theorem lastDependencies_concat (nodes : List (String × List String)) (name : String)
    (dependencies : List String) (other : String) :
    lastDependencies (nodes ++ [(name, dependencies)]) other =
      if name = other then dependencies else lastDependencies nodes other := by
  rw [lastDependencies, List.reverse_append, List.reverse_singleton, List.singleton_append,
    Table.get?]
  by_cases h : name = other
  · simp [h]
  · simp [h, lastDependencies]

/-- What a name was given with last was among what it was given with. -/
theorem exists_mem_of_mem_lastDependencies (h : d ∈ lastDependencies nodes name) :
    ∃ dependencies, (name, dependencies) ∈ nodes ∧ d ∈ dependencies := by
  rw [lastDependencies] at h
  rcases hget : Table.get? nodes.reverse name with - | dependencies
  · rw [hget] at h
    cases h
  · rw [hget] at h
    exact ⟨dependencies, List.mem_reverse.mp (Table.mem_of_get? hget), h⟩

/-- The dependencies of a name are those it was added with last, each once. -/
theorem dependenciesOf_ofNodes (nodes : List (String × List String)) (name : String) :
    (ofNodes nodes).dependenciesOf name = (lastDependencies nodes name).eraseDups := by
  induction nodes using List.reverseRecOn with
  | nil => rfl
  | append_singleton nodes node ih =>
    rw [ofNodes_concat, dependenciesOf_addNode, lastDependencies_concat, ih]
    split
    · rfl
    · rfl

/-! ### The readers of a name -/

/-- The readers of a name are all that were ever added with it. -/
theorem mem_dependentsOf_ofNodes :
    name ∈ (ofNodes nodes).dependentsOf d ↔
      ∃ dependencies, (name, dependencies) ∈ nodes ∧ d ∈ dependencies := by
  -- from the end, since each node is added to the graph of those before it
  induction nodes using List.reverseRecOn with
  | nil => simp [ofNodes, empty, dependentsOf]
  | append_singleton nodes node ih =>
    obtain ⟨added, dependencies⟩ := node
    have hold : (∃ deps, (name, deps) ∈ nodes ++ [(added, dependencies)] ∧ d ∈ deps) ↔
        (∃ deps, (name, deps) ∈ nodes ∧ d ∈ deps) ∨ name = added ∧ d ∈ dependencies := by
      simp only [List.mem_append, List.mem_singleton, Prod.mk.injEq, or_and_right, exists_or]
      refine or_congr_right ⟨?_, ?_⟩
      · rintro ⟨deps, ⟨hname, rfl⟩, hd⟩
        exact ⟨hname, hd⟩
      · rintro ⟨hname, hd⟩
        exact ⟨dependencies, ⟨hname, rfl⟩, hd⟩
    rw [ofNodes_concat, dependentsOf_addNode, hold, ← ih]
    split
    · next hd => rw [mem_including, and_iff_left hd]
    · next hd => simp [hd]

theorem nodup_dependentsOf_ofNodes (nodes : List (String × List String)) (d : String) :
    ((ofNodes nodes).dependentsOf d).Nodup := by
  induction nodes using List.reverseRecOn with
  | nil => exact List.nodup_nil
  | append_singleton nodes node ih =>
    rw [ofNodes_concat, dependentsOf_addNode]
    split
    · exact nodup_including ih node.1
    · exact ih

/-! ### Agreement -/

/-- **The two records of a graph**, whatever names were added, how often and with what: each lists
nothing twice. The dependencies of a name are those it was added with last, and the readers of a
name are all that were ever added with it, so what a name depends on has it among its readers. The
converse holds, and the records are inverse to each other, just if every name was added last with
all the dependencies that it was ever added with. -/
theorem edges_ofNodes (nodes : List (String × List String)) :
    (∀ name, ((ofNodes nodes).dependenciesOf name).Nodup ∧
      ((ofNodes nodes).dependentsOf name).Nodup) ∧
    (∀ name d, d ∈ (ofNodes nodes).dependenciesOf name ↔ d ∈ lastDependencies nodes name) ∧
    (∀ name d, name ∈ (ofNodes nodes).dependentsOf d ↔
      ∃ dependencies, (name, dependencies) ∈ nodes ∧ d ∈ dependencies) ∧
    (∀ name d, d ∈ (ofNodes nodes).dependenciesOf name →
      name ∈ (ofNodes nodes).dependentsOf d) ∧
    ((∀ name d, name ∈ (ofNodes nodes).dependentsOf d ↔
        d ∈ (ofNodes nodes).dependenciesOf name) ↔
      ∀ name dependencies, (name, dependencies) ∈ nodes →
        ∀ d ∈ dependencies, d ∈ lastDependencies nodes name) := by
  have hforward : ∀ name d, d ∈ (ofNodes nodes).dependenciesOf name ↔
      d ∈ lastDependencies nodes name := by
    intro name d
    rw [dependenciesOf_ofNodes, List.mem_eraseDups]
  have hreverse : ∀ name d, d ∈ (ofNodes nodes).dependenciesOf name →
      name ∈ (ofNodes nodes).dependentsOf d := by
    intro name d hd
    exact mem_dependentsOf_ofNodes.mpr
      (exists_mem_of_mem_lastDependencies ((hforward name d).mp hd))
  refine ⟨fun name => ⟨?_, nodup_dependentsOf_ofNodes nodes name⟩, hforward,
    fun _ _ => mem_dependentsOf_ofNodes, hreverse, ?_, ?_⟩
  · rw [dependenciesOf_ofNodes]
    exact nodup_eraseDups _
  · intro hagree name dependencies hmem d hd
    exact (hforward name d).mp
      ((hagree name d).mp (mem_dependentsOf_ofNodes.mpr ⟨dependencies, hmem, hd⟩))
  · intro hlast name d
    refine ⟨fun hreader => ?_, hreverse name d⟩
    obtain ⟨dependencies, hmem, hd⟩ := mem_dependentsOf_ofNodes.mp hreader
    exact (hforward name d).mpr (hlast name dependencies hmem d hd)

/-- A name that is added again without its dependency goes on being its reader. -/
example : (ofNodes [("a", ["b"]), ("a", [])]).dependentsOf "b" = ["a"] ∧
    (ofNodes [("a", ["b"]), ("a", [])]).dependenciesOf "a" = [] := by
  decide

end DependencyGraph

end Formulary
