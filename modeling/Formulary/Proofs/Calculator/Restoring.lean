import Formulary.Proofs.Calculator.Frame
import Formulary.Proofs.Calculator.Solver
import Formulary.Proofs.Mapping.Shared

/-!
# The memory after an evaluation

No evaluation leaks a binding. Whatever the routines behind its functions do to the calculator, and
wherever it fails, an evaluation leaves the memory as it was, and so does a look at the names that
an expression reads. A bulk solve that fails leaves it as it was too.

A bulk solve that returns nests its results, and writes into one of them if it is a mapping that the
path of another leads on from. The memory then holds what was written into objects that it holds,
under the same names in the same order; it is as it was if the results are untangled.

What is shown of single computations is that they keep the memory (`Keeps`); the main result,
`memoryOf_run`, puts them together.
-/

namespace Formulary

/-! ### Parts of a state -/

/-- Whether a part of a state is as it was. -/
def IsKept {σ β : Type} (part : σ → β) (s s' : σ) : Prop := part s' = part s

instance {σ β : Type} (part : σ → β) : IsPreorder σ (IsKept part) where
  refl _ := rfl
  trans _ _ _ h h' := h'.trans h

/-- Whether a computation leaves a part of its state as it was, whatever it answers. -/
abbrev Keeps {σ ε α β : Type} (part : σ → β) (run : ExceptT ε (StateM σ) α) : Prop :=
  Advances (IsKept part) run

theorem Keeps.toSolve {α β : Type} {run : Ensemble.Run α} {part : Ensemble → β}
    (h : Keeps part run) : Keeps part run.toSolve := h

/-! ### Reading -/

namespace Calculator

variable {setting : Setting}

theorem keeps_withData {α : Type} (data : Value) (body : Run α) :
    Keeps memory (withData data body) := by
  intro c
  simp only [withData, ExceptT.run_mk]
  split
  · rfl
  · rfl

/-- A look at the names that an expression reads leaves the memory as it was. -/
theorem keeps_dependencies (data expression : Value) :
    Keeps memory (dependencies setting data expression) :=
  dependencies_rel (Advances.correspondence (IsKept memory)) setting setting
    (fun _ => keeps_withData data _) expression

end Calculator

namespace Ensemble

open Calculator (keeps_dependencies)

variable {library : Library} {setting : Setting} {n : Nat}

theorem keeps_solveOrder (named : List Named) (fault : Option Error) :
    Keeps Calculator.memory (solveOrder setting named fault) :=
  solveOrder_rel (Advances.correspondence (IsKept Calculator.memory)) setting setting
    (fun _ => Calculator.keeps_withData .none _) named fault

/-! ### Evaluating -/

/-- The values that names are bound to in the calculator of a number. -/
def memoryOf (n : Nat) (e : Ensemble) : Memory := (e.calculator n).memory

theorem keeps_onOne {α : Type} {run : Calculator.Run α} (h : Keeps Calculator.memory run) :
    Keeps (memoryOf n) (onOne n run) := by
  intro e
  have he := h (e.calculator n)
  simp only [IsKept, memoryOf, onOne, ExceptT.run_mk]
  rcases hrun : run.run (e.calculator n) with ⟨outcome, c⟩
  rw [hrun] at he
  rw [calculator_put_self]
  exact he

theorem keeps_evaluateOne (call : Function → List Value → Run Value) (expression data : Value) :
    Keeps (memoryOf n) (evaluateOne setting call n expression data) :=
  memory_withData n data _

theorem keeps_evaluateOneOr (call : Function → List Value → Run Value) (handler : Handler)
    (expression data : Value) :
    Keeps (memoryOf n) (evaluateOneOr setting call n handler expression data) := by
  refine .tryCatch (keeps_evaluateOne call expression data) fun fault => ?_
  split
  · exact .ofExcept _
  · exact .throw fault

theorem keeps_evaluate (handler : Handler) (expression data : Value) :
    Keeps (memoryOf n) (evaluate library setting n handler expression data) :=
  advances_forEach
    (fun v => advances_isolated (fun _ _ => rfl) (keeps_evaluateOneOr _ handler v data)) expression

theorem keeps_evaluateStrict (expression data : Value) :
    Keeps (memoryOf n) (evaluateStrict library setting n expression data) :=
  advances_forEach
    (fun v => advances_isolated (fun _ _ => rfl) (keeps_evaluateOne _ v data)) expression

theorem keeps_evaluateEach (expression data : Value) :
    Keeps (memoryOf n) (evaluateEach library setting n expression data) :=
  advances_forEach (fun v => keeps_evaluateOne _ v data) expression

/-! ### Solving -/

theorem keeps_holding {α : Type} {body : Solve α} (h : Keeps (memoryOf n) body) :
    Keeps (memoryOf n) (holding n body) := by
  intro e
  have hbody := h (e.put n (e.calculator n).attached)
  rw [IsKept, memoryOf, memoryOf, calculator_put_self] at hbody
  rw [run_holding, IsKept, memoryOf, released, calculator_put_self]
  exact hbody

section

variable {handler : SolveHandler} (hhandler : ∀ failure, Keeps (memoryOf n) (handler failure))

include hhandler

theorem keeps_solveFlat (expressions : Value) :
    Keeps (memoryOf n) (solveFlat library setting n handler expressions) := by
  refine .get fun e => .bind (.ofExcept _) fun found => ?_
  refine .bind (Keeps.toSolve (keeps_onOne (keeps_solveOrder _ _))) fun order => ?_
  refine .bind (keeps_holding ?_) fun p => .pure _
  exact advances_solveNames (fun _ _ => rfl) keeps_evaluateEach hhandler n _ _ order

/-- A bulk solve that fails leaves the memory as it was: it fails before its results are nested. -/
theorem memoryOf_of_run_solve_error {expressions : Value} {e e' : Ensemble} {failure : Failure}
    (h : (solve library setting n handler expressions).run e = (.error failure, e')) :
    memoryOf n e' = memoryOf n e := by
  -- Nesting the results cannot fail, so it is the flat solve that did.
  have hflat : memoryOf n ((solveFlat library setting n handler expressions).run e).2 =
      memoryOf n e := keeps_solveFlat hhandler expressions e
  rcases hrun : (solveFlat library setting n handler expressions).run e with
    ⟨other | ⟨named, p⟩, e₁⟩
  · rw [solve, Stateful.run_bind, Stateful.run_get] at h
    simp only [Stateful.run_bind, hrun] at h
    obtain ⟨-, rfl⟩ := Prod.mk.inj h
    rw [hrun] at hflat
    exact hflat
  · rw [run_solve_of_run_solveFlat hrun rfl] at h
    cases h

end

/-! ### Writes into objects -/

theorem memoryOf_receiveAll (writes : List ObjectWrite) (e : Ensemble) (n : Nat) :
    memoryOf n (e.receiveAll writes) = Table.receiveAll writes (memoryOf n e) := by
  rw [memoryOf, calculator_receiveAll]
  rfl

theorem keys_receiveAll (writes : List ObjectWrite) (t : Table String Value) :
    Table.keys (Table.receiveAll writes t) = Table.keys t := by
  rw [Table.receiveAll]
  split
  · rfl
  · simp [Table.keys]

/-- A bulk solve that returns leaves in the memory what nesting its results has written. -/
theorem memoryOf_of_run_solve_ok {handler : SolveHandler}
    (hhandler : ∀ failure, Keeps (memoryOf n) (handler failure)) {expressions w : Value}
    {e e' : Ensemble} (h : (solve library setting n handler expressions).run e = (.ok w, e')) :
    ∃ named p e₁, (solveFlat library setting n handler expressions).run e = (.ok (named, p), e₁) ∧
      memoryOf n e' = Table.receiveAll (Mapping.expandShared (fun key v =>
          v.identified (.result e₁.step ((e.calculator n).bindings.normalize key)))
        (resultsByKey named p)).writes (memoryOf n e) := by
  obtain ⟨named, p, e₁, hflat⟩ := exists_run_solveFlat_of_run_solve h
  refine ⟨named, p, e₁, hflat, ?_⟩
  have hkept : memoryOf n ((solveFlat library setting n handler expressions).run e).2 =
      memoryOf n e := keeps_solveFlat hhandler expressions e
  rw [hflat] at hkept
  rw [run_solve_of_run_solveFlat hflat rfl] at h
  obtain ⟨-, rfl⟩ := Prod.mk.inj h
  rw [memoryOf_receiveAll, hkept]

/-- **No evaluation leaks a binding**: whether it returns or fails, and whatever the routines do
that it calls, the memory is afterwards as it was. So it is after a bulk solve that fails, if its
handler keeps the memory. One that returns leaves the same names in the same order, with the values
that they had but for what it wrote into objects when it nested its results; and if these are
untangled, it wrote nothing. -/
theorem memoryOf_run (library : Library) (setting : Setting) (n : Nat) (e : Ensemble) :
    (∀ expression data, memoryOf n
      ((onOne n (Calculator.dependencies setting data expression)).run e).2 = memoryOf n e) ∧
    (∀ handler expression data, memoryOf n
      ((evaluate library setting n handler expression data).run e).2 = memoryOf n e) ∧
    (∀ expression data, memoryOf n
      ((evaluateStrict library setting n expression data).run e).2 = memoryOf n e) ∧
    (∀ handler : SolveHandler, (∀ failure, Keeps (memoryOf n) (handler failure)) →
      ∀ expressions failure e',
        (solve library setting n handler expressions).run e = (.error failure, e') →
          memoryOf n e' = memoryOf n e) ∧
    (∀ handler : SolveHandler, (∀ failure, Keeps (memoryOf n) (handler failure)) →
      ∀ expressions w e',
      (solve library setting n handler expressions).run e = (.ok w, e') → ∃ named p e₁,
        (solveFlat library setting n handler expressions).run e = (.ok (named, p), e₁) ∧
        (memoryOf n e' = Table.receiveAll (Mapping.expandShared (fun key v =>
            v.identified (.result e₁.step ((e.calculator n).bindings.normalize key)))
          (resultsByKey named p)).writes (memoryOf n e)) ∧
        Table.keys (memoryOf n e') = Table.keys (memoryOf n e) ∧
        ((resultsByKey named p).IsUntangled → memoryOf n e' = memoryOf n e)) := by
  refine ⟨fun expression data => keeps_onOne (keeps_dependencies data expression) e,
    fun handler expression data => keeps_evaluate handler expression data e,
    fun expression data => keeps_evaluateStrict expression data e,
    fun _ hhandler _ _ _ h => memoryOf_of_run_solve_error hhandler h,
    fun handler hhandler expressions w e' h => ?_⟩
  obtain ⟨named, p, e₁, hflat, hmemory⟩ := memoryOf_of_run_solve_ok hhandler h
  refine ⟨named, p, e₁, hflat, hmemory, ?_, fun huntangled => ?_⟩
  · rw [hmemory, keys_receiveAll]
  · rw [hmemory, Mapping.writes_expandShared huntangled, Table.receiveAll_nil]

/-- A routine that clears the bindings, binds `m` anew and fails. -/
def meddling : Routine :=
  ⟨0, some 0, fun _ => .act .clear fun _ => .act (.store (.text "m") (.int 7)) fun _ =>
    .done (throw .wrongType)⟩

/-- An ensemble of one calculator, in which `m` is bound to an empty mapping. -/
def bindingM : Ensemble :=
  Ensemble.empty.put 0 (.usual .empty [("m", .object ⟨.given, 0⟩ (.map []))])

/-- A call of the meddling routine is forgiven and leaves no trace, and a solve whose results do not
lead on into each other leaves none either. -/
theorem memoryOf_bindingM : ∃ w e',
    memoryOf 0 ((evaluate (fun _ => some meddling) (.initial .empty) 0 .silent
        (.node (.call ⟨"F", .any, .routine "f" none, 0, some 0⟩ [])) .none).run bindingM).2 =
      memoryOf 0 bindingM ∧
    (solve (fun _ => none) (.initial .empty) 0 .lenient
      (.map [(.text "a", .text "m"), (.text "b", .int 2)])).run bindingM = (.ok w, e') ∧
    memoryOf 0 e' = memoryOf 0 bindingM := by
  obtain ⟨-, hevaluate, -⟩ :=
    memoryOf_run (fun _ => some meddling) (.initial .empty) 0 bindingM
  obtain ⟨-, -, -, -, hsolve⟩ := memoryOf_run (fun _ => none) (.initial .empty) 0 bindingM
  have hreturns : ((solve (fun _ => none) (.initial .empty) 0 .lenient
      (.map [(.text "a", .text "m"), (.text "b", .int 2)])).run bindingM).1.isOk = true := by
    rw [bindingM, Calculator.usual_eq, Setting.initial_eq]
    cbv
  have hflat : ((solveFlat (fun _ => none) (.initial .empty) 0 .lenient
      (.map [(.text "a", .text "m"), (.text "b", .int 2)])).run bindingM).1 =
        .ok ([⟨"a", .text "a", .text "m"⟩, ⟨"b", .text "b", .int 2⟩],
          ⟨[("a", .object ⟨.given, 0⟩ (.map [])), ("b", .int 2)],
            [("a", .object ⟨.given, 0⟩ (.map [])), ("b", .int 2)]⟩) := by
    rw [bindingM, Calculator.usual_eq, Setting.initial_eq]
    cbv
  rcases hrun : (solve (fun _ => none) (.initial .empty) 0 .lenient
    (.map [(.text "a", .text "m"), (.text "b", .int 2)])).run bindingM with ⟨failure | w, e'⟩
  · rw [hrun] at hreturns
    cases hreturns
  · obtain ⟨named, p, e₁, hp, -, -, hkept⟩ := hsolve .lenient (fun _ => .ofExcept _) _ w e' hrun
    rw [hp] at hflat
    obtain ⟨rfl, rfl⟩ := Prod.mk.inj (Except.ok.inj hflat)
    refine ⟨w, e', hevaluate _ _ _, rfl, hkept ?_⟩
    rw [show resultsByKey _ _ = [(Value.text "a", Value.object ⟨.given, 0⟩ (.map [])),
      (.text "b", .int 2)] from by cbv]
    have ha : Path.ofKey (.text "a") = [.text "a"] := by cbv
    have hb : Path.ofKey (.text "b") = [.text "b"] := by cbv
    -- Only the value of `a` is a mapping, and no other path starts with `a`.
    intro entry hentry hmap
    simp only [List.mem_cons, List.not_mem_nil, or_false] at hentry
    rcases hentry with rfl | rfl
    · refine ⟨by simp [ha, Value.IsName], fun other hother hprefix => ?_⟩
      simp only [List.mem_cons, List.not_mem_nil, or_false] at hother
      rcases hother with rfl | rfl
      · rfl
      · simp [ha, hb] at hprefix
    · cases hmap

-- A path that leads on into the mapping writes into what the calculator binds.
example : memoryOf 0 ((solve (fun _ => none) (.initial .empty) 0 .lenient
      (.map [(.text "a", .text "m"), (.text "a.b", .int 2)])).run bindingM).2 =
    [("m", .object ⟨.given, 0⟩ (.map [(.text "b", .int 2)]))] := by
  rw [bindingM, Calculator.usual_eq, Setting.initial_eq]
  cbv

end Ensemble

end Formulary
