import Formulary.Calculator.Solver
import Formulary.Proofs.Calculator.Passive

/-!
# Two runs of one computation

The same computation may be run under two settings. A correspondence between computations holds of
two such runs if it holds of the runs of their parts: here of looking at the names that an
expression reads (`Calculator.dependencies_rel`) and of ordering names (`Ensemble.solveOrder_rel`),
if it holds of looking at the names that single expressions read.
-/

namespace Formulary

section

variable (R : Correspondence Calculator.Run Calculator.Run) (setting setting' : Setting)

namespace Calculator

variable {data : Value}

mutual

theorem dependencies_rel (h : ∀ v, R.rel (dependenciesOfOne setting v data)
    (dependenciesOfOne setting' v data)) : ∀ expression : Value,
    R.rel (dependencies setting data expression) (dependencies setting' data expression)
  | .list items => by
    rw [dependencies, dependencies]
    exact allDependencies_rel h items
  | .tuple items => by
    rw [dependencies, dependencies]
    exact allDependencies_rel h items
  | .none | .bool _ | .int _ | .float _ | .complex _ | .text _ | .map _ | .symbol _ | .undefined
  | .node _ | .cell .. | .object .. => by
    simp only [dependencies]
    exact h _

theorem allDependencies_rel (h : ∀ v, R.rel (dependenciesOfOne setting v data)
    (dependenciesOfOne setting' v data)) : ∀ expressions : List Value,
    R.rel (allDependencies setting data expressions) (allDependencies setting' data expressions)
  | [] => by
    rw [allDependencies, allDependencies]
    exact R.pure []
  | v :: vs => by
    rw [allDependencies, allDependencies]
    exact R.bind (dependencies_rel h v) fun names =>
      R.bind (allDependencies_rel h vs) fun others => R.pure _

end

end Calculator

namespace Ensemble

variable (h : ∀ v, R.rel (Calculator.dependenciesOfOne setting v .none)
  (Calculator.dependenciesOfOne setting' v .none))

include h

theorem readsAmong_rel (names : List String) (expression : Value) :
    R.rel (readsAmong setting names expression) (readsAmong setting' names expression) := by
  rw [readsAmong, readsAmong]
  split
  · exact R.bind (Calculator.dependencies_rel R setting setting' h expression) fun reads => R.pure _
  · exact R.pure []

theorem graphAfter_rel (names : List String) (g : DependencyGraph) (named : List Named) :
    R.rel (graphAfter setting names g named) (graphAfter setting' names g named) := by
  induction named generalizing g with
  | nil => exact R.pure g
  | cons x rest ih =>
    exact R.bind (readsAmong_rel R setting setting' h names x.expression) fun reads => ih _

theorem solveOrder_rel (named : List Named) (fault : Option Error) :
    R.rel (solveOrder setting named fault) (solveOrder setting' named fault) := by
  refine R.bind (graphAfter_rel R setting setting' h _ _ named) fun g => ?_
  cases fault with
  | some e => exact R.throw e
  | none => exact R.ofExcept g.order

end Ensemble

end

end Formulary
