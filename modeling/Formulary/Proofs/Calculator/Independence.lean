import Formulary.Function.Samples
import Formulary.Proofs.Calculator.CurrentTexts
import Formulary.Proofs.Calculator.Frame
import Mathlib

/-!
# Expressions of a list, each by itself

A list of expressions is evaluated expression by expression on one calculator. Still each of them
comes to what it comes to alone, on the calculator as it was at the start
(`Ensemble.run_evaluate_singles`): to the value that a strict evaluation of it returns, or to the
handler's answer where that fails forgivably. The first expression that has neither fails the whole
list; otherwise the results are nested as the expressions are.

What makes the expressions independent is that each gives back what its calculator binds, that what
is learnt or forgotten changes no tree that is found, and that the numbers of calls are free again
afterwards. So the ensemble stays like it was (`Ensemble.Alike`). A routine may do what is not given
back, though: it may run on another calculator and bind names there, take notes for itself, or have
an old tree forgotten. Where that is so, a later expression may show it
(`Ensemble.run_evaluate_ne_singles`).
-/

namespace Formulary

/-! ### Nested lists -/

mutual

/-- A nested list with values in the places of its single expressions, all of it as lists. -/
def Value.nested (value : Value → Value) : Value → Value
  | .list items => .list (Value.allNested value items)
  | .tuple items => .list (Value.allNested value items)
  | v => value v

/-- The items of a nested list with values in the places of its single expressions. -/
def Value.allNested (value : Value → Value) : List Value → List Value
  | [] => []
  | v :: vs => v.nested value :: Value.allNested value vs

end

/-! ### Marks that are not there -/

namespace Value

mutual

/-- A change of marks that are not in a value does not change it. -/
theorem remarked_of_marks {change : Identity → Option Identity} : ∀ v : Value,
    (∀ i ∈ v.marks, change i = some i) → v.remarked change = v
  | .list items, h => by rw [remarked, allRemarked_of_marks items h]
  | .tuple items, h => by rw [remarked, allRemarked_of_marks items h]
  | .map entries, h => by rw [remarked, entriesRemarked_of_marks entries h]
  | .object identity content, h => by
    have hcontent := remarked_of_marks content fun i hi => h i (List.mem_cons_of_mem _ hi)
    rw [remarked, h identity List.mem_cons_self, hcontent]
  | .none, _ | .bool _, _ | .int _, _ | .float _, _ | .complex _, _ | .text _, _ | .symbol _, _
  | .undefined, _ | .node _, _ | .cell .., _ => by simp only [remarked]

theorem allRemarked_of_marks {change : Identity → Option Identity} : ∀ vs : List Value,
    (∀ i ∈ allMarks vs, change i = some i) → allRemarked change vs = vs
  | [], _ => rfl
  | v :: vs, h => by
    rw [allRemarked, remarked_of_marks v fun i hi => h i (List.mem_append_left _ hi),
      allRemarked_of_marks vs fun i hi => h i (List.mem_append_right _ hi)]

theorem entriesRemarked_of_marks {change : Identity → Option Identity} :
    ∀ entries : List (Value × Value),
      (∀ i ∈ entriesMarks entries, change i = some i) → entriesRemarked change entries = entries
  | [], _ => rfl
  | (k, v) :: rest, h => by
    have hfront : ∀ i ∈ k.marks ++ v.marks, change i = some i :=
      fun i hi => h i (List.mem_append_left _ hi)
    rw [entriesRemarked, remarked_of_marks k fun i hi => hfront i (List.mem_append_left _ hi),
      remarked_of_marks v fun i hi => hfront i (List.mem_append_right _ hi),
      entriesRemarked_of_marks rest fun i hi => h i (List.mem_append_right _ hi)]

end

/-- A value without objects of the calls keeps all its marks. -/
theorem released_of_free {step number : Nat} {v : Value} (h : v.holdsCallFrom step number = false) :
    v.released step number = v := by
  refine remarked_of_marks v fun i hi => ?_
  rw [if_neg (List.any_eq_false.mp h i hi)]

end Value

namespace Ensemble

section

variable {answer : Value → Except Error Value}

mutual

/-- If all single expressions have values, these are the results, in the same nesting. -/
theorem forEach_eq_ok {value : Value → Value} : ∀ v : Value,
    (∀ w ∈ v.singles, answer w = .ok (value w)) → forEach answer v = .ok (v.nested value)
  | .list items, h => by
    rw [forEach, forAll_eq_ok items h, Value.nested]
    rfl
  | .tuple items, h => by
    rw [forEach, forAll_eq_ok items h, Value.nested]
    rfl
  | .none, h | .bool _, h | .int _, h | .float _, h | .complex _, h | .text _, h | .map _, h
  | .symbol _, h | .undefined, h | .node _, h | .cell .., h | .object .., h => by
    simp only [forEach, Value.nested]
    exact h _ (List.mem_singleton.mpr rfl)

theorem forAll_eq_ok {value : Value → Value} : ∀ vs : List Value,
    (∀ w ∈ Value.allSingles vs, answer w = .ok (value w)) →
      forAll answer vs = .ok (Value.allNested value vs)
  | [], _ => rfl
  | v :: vs, h => by
    rw [forAll, forEach_eq_ok v fun w hw => h w (List.mem_append_left _ hw),
      forAll_eq_ok vs fun w hw => h w (List.mem_append_right _ hw), Value.allNested]
    rfl

end

mutual

/-- A single expression is taken as it is. -/
theorem forEach_of_mem_singles {m : Type → Type} [Monad m] (one : Value → m Value) {w : Value} :
    ∀ v : Value, w ∈ v.singles → forEach one w = one w
  | .list items, h => forEach_of_mem_allSingles one items h
  | .tuple items, h => forEach_of_mem_allSingles one items h
  | .none, h | .bool _, h | .int _, h | .float _, h | .complex _, h | .text _, h | .map _, h
  | .symbol _, h | .undefined, h | .node _, h | .cell .., h | .object .., h => by
    rw [List.mem_singleton.mp h]
    simp only [forEach]

theorem forEach_of_mem_allSingles {m : Type → Type} [Monad m] (one : Value → m Value) {w : Value} :
    ∀ vs : List Value, w ∈ Value.allSingles vs → forEach one w = one w
  | [], h => by cases h
  | v :: vs, h => (List.mem_append.mp h).elim (forEach_of_mem_singles one v)
    (forEach_of_mem_allSingles one vs)

end

theorem exists_forEach_eq_ok {v : Value} (h : ∀ w ∈ v.singles, ∃ r, answer w = .ok r) :
    ∃ r, forEach answer v = .ok r := by
  have hvalues : ∀ w ∈ v.singles, answer w = .ok ((answer w).toOption.getD .none) := by
    intro w hw
    obtain ⟨r, hr⟩ := h w hw
    rw [hr]
    rfl
  exact ⟨_, forEach_eq_ok v hvalues⟩

theorem eq_of_singleton_eq {α : Type} {before after : List α} {x y : α}
    (h : [y] = before ++ x :: after) : x = y :=
  List.mem_singleton.mp (h ▸ List.mem_append_right before List.mem_cons_self)

/-- Where an item stands in an append of lists. -/
theorem append_eq_append_cons {α : Type} {xs ys before after : List α} {x : α}
    (h : xs ++ ys = before ++ x :: after) :
    (∃ rest, xs = before ++ x :: rest) ∨ ∃ front, before = xs ++ front ∧ ys = front ++ x :: after := by
  rcases List.append_eq_append_iff.mp h with ⟨front, hbefore, hys⟩ | ⟨rest, hxs, hrest⟩
  · exact .inr ⟨front, hbefore, hys⟩
  · rcases rest with - | ⟨y, rest⟩
    · exact .inr ⟨[], by simpa using hxs.symm, by simpa using hrest.symm⟩
    · obtain ⟨rfl, -⟩ := List.cons.inj hrest
      exact .inl ⟨rest, hxs⟩

mutual

/-- The first single expression that fails fails the whole list. -/
theorem forEach_eq_error {leaf : Value} {fault : Error} (hleaf : answer leaf = .error fault) :
    ∀ (v : Value) {before after : List Value}, v.singles = before ++ leaf :: after →
      (∀ w ∈ before, ∃ r, answer w = .ok r) → forEach answer v = .error fault
  | .list items, _, _, hsingles, h => by
    rw [forEach, forAll_eq_error hleaf items hsingles h]
    rfl
  | .tuple items, _, _, hsingles, h => by
    rw [forEach, forAll_eq_error hleaf items hsingles h]
    rfl
  | .none, _, _, hsingles, _ | .bool _, _, _, hsingles, _ | .int _, _, _, hsingles, _
  | .float _, _, _, hsingles, _ | .complex _, _, _, hsingles, _ | .text _, _, _, hsingles, _
  | .map _, _, _, hsingles, _ | .symbol _, _, _, hsingles, _ | .undefined, _, _, hsingles, _
  | .node _, _, _, hsingles, _ | .cell .., _, _, hsingles, _ | .object .., _, _, hsingles, _ => by
    rw [eq_of_singleton_eq hsingles] at hleaf
    simp only [forEach]
    exact hleaf

theorem forAll_eq_error {leaf : Value} {fault : Error} (hleaf : answer leaf = .error fault) :
    ∀ (vs : List Value) {before after : List Value}, Value.allSingles vs = before ++ leaf :: after →
      (∀ w ∈ before, ∃ r, answer w = .ok r) → forAll answer vs = .error fault
  | [], before, after, hsingles, _ => by
    rw [Value.allSingles] at hsingles
    simp at hsingles
  | v :: vs, before, after, hsingles, h => by
    rw [Value.allSingles] at hsingles
    rcases append_eq_append_cons hsingles with ⟨rest, hv⟩ | ⟨front, rfl, hvs⟩
    · rw [forAll, forEach_eq_error hleaf v hv h]
      rfl
    · obtain ⟨r, hr⟩ := exists_forEach_eq_ok fun w hw => h w (List.mem_append_left _ hw)
      rw [forAll, hr, forAll_eq_error hleaf vs hvs fun w hw => h w (List.mem_append_right _ hw)]
      rfl

end

end

/-! ### Leaving other calculators alone -/

variable {library : Library} {setting : Setting} {n : Nat} {e e' : Ensemble}

/-- Whether the calculators of two ensembles bind and read the same, but for that of a number. -/
def IsSameElsewhere (n : Nat) (e e' : Ensemble) : Prop :=
  ∀ bound, Table.insert e'.boundBy n bound = Table.insert e.boundBy n bound

theorem get?_boundBy (e : Ensemble) (m : Nat) : Table.get? e.boundBy m =
    (Table.get? e.calculators m).map fun c => (c.bindings, c.detached) :=
  Table.get?_mapValues e.calculators (fun c : Calculator => (c.bindings, c.detached)) m

/-- Ensembles that bind and read the same do so on each calculator. -/
theorem bindings_of_boundBy (h : e'.boundBy = e.boundBy) (m : Nat) :
    (e'.calculator m).bindings = (e.calculator m).bindings ∧
      (e'.calculator m).detached = (e.calculator m).detached := by
  have hget := congrArg (Table.get? · m) h
  simp only [get?_boundBy] at hget
  rw [calculator, calculator]
  rcases hc : Table.get? e.calculators m with - | c <;>
    rcases hc' : Table.get? e'.calculators m with - | c' <;> rw [hc, hc'] at hget
  · exact ⟨rfl, rfl⟩
  · cases hget
  · cases hget
  · exact Prod.mk.inj (Option.some.inj hget)

theorem get?_boundBy_of_has (h : Table.has e.calculators n = true) :
    Table.get? e.boundBy n = some ((e.calculator n).bindings, (e.calculator n).detached) := by
  obtain ⟨c, hc⟩ := Option.isSome_iff_exists.mp h
  have hcalculator : e.calculator n = c := by rw [calculator, hc, Option.getD_some]
  rw [get?_boundBy, hc, hcalculator]
  rfl

/-- What an evaluation gives back and what it leaves alone is all that is bound. -/
theorem IsSameElsewhere.boundBy_eq (h : IsSameElsewhere n e e')
    (hhas : Table.has e.calculators n = true) (hhas' : Table.has e'.calculators n = true)
    (hbindings : (e'.calculator n).bindings = (e.calculator n).bindings)
    (hdetached : (e'.calculator n).detached = (e.calculator n).detached) :
    e'.boundBy = e.boundBy := by
  have hget := get?_boundBy_of_has hhas'
  rw [hbindings, hdetached] at hget
  rw [← Table.insert_of_get? hget, h, Table.insert_of_get? (get?_boundBy_of_has hhas)]

/-- What is bound for a while is given back, and so is what is read. -/
theorem detached_withData {α : Type} (n : Nat) (data : Value) (body : Run α) (e : Ensemble) :
    (((withData n data body).run e).2.calculator n).detached = (e.calculator n).detached := by
  simp only [withData, ExceptT.run_mk]
  split
  · rfl
  · next inside _ =>
    rcases ExceptT.run body (e.put n inside) with ⟨outcome, after⟩
    simp [Calculator.closeData]

theorem has_withData {α : Type} (data : Value) (body : Run α)
    (h : Table.has e.calculators n = true) :
    Table.has ((withData n data body).run e).2.calculators n = true := by
  simp only [withData, ExceptT.run_mk]
  split
  · exact h
  · next inside _ =>
    rcases ExceptT.run body (e.put n inside) with ⟨outcome, after⟩
    simp [put, Table.has_insert]

/-- Whether an ensemble is undisturbed, if what a calculator of a number learns and numbers of calls
do not count: the other calculators bind and read the same, all find the same trees, and nothing was
noted. -/
structure IsUndisturbed (setting : Setting) (n : Nat) (e e' : Ensemble) : Prop where
  elsewhere : IsSameElsewhere n e e'
  trees : ∀ m, (e'.calculator m).treeOf setting = (e.calculator m).treeOf setting
  notes : e'.notes = e.notes

/-- Where all texts are current, no evaluation changes which trees are found. -/
theorem treeOf_evaluateOne (hcurrent : ∀ m text, (e.calculator m).IsCurrent setting text)
    (library : Library) (n : Nat) (expression data : Value) (m : Nat) :
    (((evaluateOne setting (call library setting n) n expression data).run e).2.calculator
        m).treeOf setting = (e.calculator m).treeOf setting := by
  have hstays : (e.calculator m).StaysCurrent setting
      (((evaluateOne setting (call library setting n) n expression data).run e).2.calculator m) :=
    staysCurrent_evaluateOne library n expression data e m
  funext other
  rcases htext : other.text? with - | text
  · exact Calculator.treeOf_of_text?_eq_none htext _ _
  · rw [Calculator.treeOf_of_text? htext, Calculator.treeOf_of_text? htext,
      Calculator.treeOf_of_isCurrent (hcurrent m text),
      Calculator.treeOf_of_isCurrent (hstays.current text (hcurrent m text)), hstays.parse]

/-- **An evaluation that disturbs nothing leaves the ensemble like it was**, with the numbers of
calls free again. -/
theorem alike_evaluateOne {leaf data : Value} (hhas : Table.has e.calculators n = true)
    (hsame : IsUndisturbed setting n e
      ((evaluateOne setting (call library setting n) n leaf data).run e).2) :
    Alike (fun _ => True) setting e
      { ((evaluateOne setting (call library setting n) n leaf data).run e).2 with
        calls := e.calls } := by
  -- the own calculator gives back what it binds, so nothing that is bound differs
  have hrestored : Restored n e ((evaluateOne setting (call library setting n) n leaf data).run
      e).2 := restores_evaluateOne n leaf data e
  have hbound := hsame.elsewhere.boundBy_eq hhas (has_withData data _ hhas) hrestored.bindings
    (detached_withData n data _ e)
  refine ⟨fun m => ?_, hbound, hrestored.step, rfl, hsame.notes⟩
  obtain ⟨hbindings, hdetached⟩ := bindings_of_boundBy hbound m
  exact ⟨hbindings, hdetached, (staysCurrent_evaluateOne library n leaf data e m).parse,
    fun _ => congrFun (hsame.trees m) _⟩

/-! ### One expression -/

/-- What stands for the outcome of an expression: its value, or the handler's answer to a forgivable
failure. -/
def Handler.answer (handler : Handler) (leaf : Value) : Except Error Value → Except Error Value
  | .ok v => .ok v
  | .error fault => if fault.IsForgivable then handler leaf fault else .error fault

/-- A change of values that does not change the handler's may be made before it is asked. -/
theorem Handler.map_answer {handler : Handler} {leaf : Value} {change : Value → Value}
    (h : ∀ fault v, handler leaf fault = .ok v → change v = v) (outcome : Except Error Value) :
    (handler.answer leaf outcome).map change = handler.answer leaf (outcome.map change) := by
  rcases outcome with fault | v
  · rw [Except.map, answer]
    split
    · rcases hanswer : handler leaf fault with fault' | v
      · rfl
      · rw [Except.map, h fault v hanswer]
    · rfl
  · rfl

/-- The handler answers for what has happened, and does nothing. -/
theorem run_evaluateOneOr (call : Function → List Value → Run Value) (handler : Handler)
    (leaf data : Value) (e : Ensemble) :
    (evaluateOneOr setting call n handler leaf data).run e =
      (handler.answer leaf ((evaluateOne setting call n leaf data).run e).1,
        ((evaluateOne setting call n leaf data).run e).2) := by
  rw [evaluateOneOr, Stateful.run_tryCatch]
  rcases (evaluateOne setting call n leaf data).run e with ⟨fault | v, after⟩
  · simp only [Handler.answer]
    split
    · rw [Stateful.run_ofExcept]
    · rfl
  · rfl

/-- Where no object of the calls is held, the numbers are free again afterwards. -/
theorem run_isolated_of_free {leave : Nat → Nat → Value → Value} {run : Run Value}
    (h : (run.run e).2.holdsCallFrom e.calls = false) : (isolated leave run).run e =
      (if (run.run e).2.calls = e.calls then (run.run e).1
        else (run.run e).1.map (leave e.step e.calls),
      { (run.run e).2 with calls := e.calls }) := by
  rw [isolated, ExceptT.run_mk]
  rcases hrun : run.run e with ⟨outcome, after⟩
  rw [hrun] at h
  simp only [h, Bool.or_false, decide_eq_true_eq]
  split
  · next hcalls => rw [← hcalls]
  · rfl

/-- Freeing the numbers of calls disturbs nothing. -/
theorem isUndisturbed_isolated {leave : Nat → Nat → Value → Value} {run : Run Value}
    (h : IsUndisturbed setting n e ((isolated leave run).run e).2) :
    IsUndisturbed setting n e (run.run e).2 := by
  have hsame : ((isolated leave run).run e).2.boundBy = (run.run e).2.boundBy ∧
      ((isolated leave run).run e).2.notes = (run.run e).2.notes := by
    rw [isolated, ExceptT.run_mk]
    rcases run.run e with ⟨outcome, after⟩
    simp only
    split
    · exact ⟨rfl, rfl⟩
    · exact ⟨rfl, rfl⟩
  refine ⟨fun bound => ?_, fun m => ?_, hsame.2.symm.trans h.notes⟩
  · rw [← hsame.1]
    exact h.elsewhere bound
  · rw [← calculator_isolated]
    exact h.trees m

/-- What an expression comes to alone: what stands for the outcome of its strict evaluation. -/
def alone (library : Library) (setting : Setting) (n : Nat) (handler : Handler) (data : Value)
    (e : Ensemble) (leaf : Value) : Except Error Value :=
  handler.answer leaf ((evaluateStrict library setting n leaf data).run e).1

/-- **One expression**: with a handler it comes to what stands for its strict outcome, and if that
disturbs nothing, it leaves the ensemble like it was. -/
theorem run_one {handler : Handler} {leaf data : Value} (hhas : Table.has e.calculators n = true)
    (hfree : e.holdsCallFrom e.calls = false)
    (hhandler : ∀ fault v, handler leaf fault = .ok v → v.holdsCallFrom e.step e.calls = false)
    (hsame : IsUndisturbed setting n e
      ((evaluateOne setting (call library setting n) n leaf data).run e).2) :
    ((isolated Value.released
        (evaluateOneOr setting (call library setting n) n handler leaf data)).run e).1 =
      handler.answer leaf ((isolated Value.released
        (evaluateOne setting (call library setting n) n leaf data)).run e).1 ∧
    Alike (fun _ => True) setting e ((isolated Value.released
        (evaluateOneOr setting (call library setting n) n handler leaf data)).run e).2 := by
  have halike := alike_evaluateOne hhas hsame
  have hheld := halike.holdsCallFrom e.calls
  have hor : (evaluateOneOr setting (call library setting n) n handler leaf data).run e = _ :=
    run_evaluateOneOr (call library setting n) handler leaf data e
  rcases hrun : (evaluateOne setting (call library setting n) n leaf data).run e with
    ⟨outcome, after⟩
  rw [hrun] at halike hheld hor
  have hheld' : after.holdsCallFrom e.calls = false := hheld.trans hfree
  rw [run_isolated_of_free (by rw [hor]; exact hheld'),
    run_isolated_of_free (by rw [hrun]; exact hheld'), hor, hrun]
  refine ⟨?_, halike⟩
  simp only
  split
  · rfl
  · -- what the handler answers has no marks of the calls that are released
    exact Handler.map_answer
      (fun fault v hanswer => Value.released_of_free (hhandler fault v hanswer)) outcome

/-! ### Lists of expressions -/

theorem Alike.trans {A : String → Prop} {e'' : Ensemble} (h : Alike A setting e e')
    (h' : Alike A setting e' e'') : Alike A setting e e'' where
  agrees m := (h.agrees m).trans (h'.agrees m)
  boundBy := h'.boundBy.trans h.boundBy
  step := h'.step.trans h.step
  calls := h'.calls.trans h.calls
  notes := h'.notes.trans h.notes

/-- Computations that have a result on all ensembles like a first one, and keep them like it. -/
def settling (setting : Setting) (e : Ensemble) : Correspondence Run (Except Error) where
  rel run result := ∀ e', Alike (fun _ => True) setting e e' →
    (run.run e').1 = result ∧ Alike (fun _ => True) setting e (run.run e').2
  pure _ _ h := ⟨rfl, h⟩
  throw _ _ h := ⟨rfl, h⟩
  bind {α β run result f g} hrun hf e' h := by
    obtain ⟨houtcome, hafter⟩ := hrun e' h
    rw [Stateful.run_bind]
    rcases hr : run.run e' with ⟨outcome, after⟩
    rw [hr] at houtcome hafter
    obtain rfl : outcome = result := houtcome
    rcases outcome with fault | a
    · exact ⟨rfl, hafter⟩
    · exact hf a after hafter

/-- **A list comes to what its expressions come to alone**, in order. -/
theorem run_evaluate_eq_forEach {handler : Handler} {expression data : Value}
    (hhas : Table.has e.calculators n = true) (hfree : e.holdsCallFrom e.calls = false)
    (hhandler : ∀ leaf fault v, handler leaf fault = .ok v →
      v.holdsCallFrom e.step e.calls = false)
    (hsame : ∀ leaf ∈ expression.singles,
      IsUndisturbed setting n e ((evaluateStrict library setting n leaf data).run e).2) :
    ((evaluate library setting n handler expression data).run e).1 =
      forEach (alone library setting n handler data e) expression := by
  have hcoupling := coupling_alike (fun _ => True) setting
  have hcall := hcoupling.call (library.evaluatesOnly_of_forall fun _ => trivial) n
  -- the list is gone through on ensembles that stay like the first one
  refine (forEach_rel (settling setting e) _ _ expression fun leaf hleaf => ?_) e (.refl e) |>.1
  have hsingle : evaluateStrict library setting n leaf data = isolated Value.released
      (evaluateOne setting (call library setting n) n leaf data) :=
    forEach_of_mem_singles _ expression hleaf
  have hleaf' := hsame leaf hleaf
  rw [hsingle] at hleaf'
  obtain ⟨hone, halike⟩ := run_one hhas hfree (hhandler leaf) (isUndisturbed_isolated hleaf')
  intro e' he'
  have hor : Couples (Alike (fun _ => True) setting)
      (evaluateOneOr setting (call library setting n) n handler leaf data)
      (evaluateOneOr setting (call library setting n) n handler leaf data) :=
    hcoupling.evaluateOneOr hcall n handler (fun _ _ => trivial) data
  have hcouples : Couples (Alike (fun _ => True) setting)
      (isolated Value.released (evaluateOneOr setting (call library setting n) n handler leaf data))
      (isolated Value.released (evaluateOneOr setting (call library setting n) n handler leaf data)) :=
    hcoupling.isolated hor
  obtain ⟨houtcome, hafter⟩ := hcouples e e' he'
  refine ⟨?_, halike.trans hafter⟩
  rw [houtcome, hone, alone, hsingle]

/-- **Each expression of a list comes to what it comes to alone**: if every single expression has a
value or an answer of the handler, these are the results, nested like the expressions; otherwise the
first one that has neither fails the list.

Alone, an expression must leave what the other calculators bind and what was noted as it was. It may
clear caches if all texts are current in them, as they are where no cache was seeded and no function
registered anew; otherwise what it makes them forget must not matter. Objects of calls that are yet
to come are neither bound, as in any step that begins, nor known to the handler. -/
theorem run_evaluate_singles {handler : Handler} {expression data : Value}
    (hhas : Table.has e.calculators n = true) (hfree : e.holdsCallFrom e.calls = false)
    (hhandler : ∀ leaf fault v, handler leaf fault = .ok v →
      v.holdsCallFrom e.step e.calls = false)
    (hkept : ∀ leaf ∈ expression.singles,
      IsSameElsewhere n e ((evaluateStrict library setting n leaf data).run e).2 ∧
        ((evaluateStrict library setting n leaf data).run e).2.notes = e.notes)
    (hcache : (∀ m text, (e.calculator m).IsCurrent setting text) ∨
      ∀ leaf ∈ expression.singles, ∀ m,
        (((evaluateStrict library setting n leaf data).run e).2.calculator m).treeOf setting =
          (e.calculator m).treeOf setting) :
    (∀ value : Value → Value,
      (∀ leaf ∈ expression.singles, alone library setting n handler data e leaf = .ok (value leaf)) →
        ((evaluate library setting n handler expression data).run e).1 =
          .ok (expression.nested value)) ∧
    ∀ before leaf after fault, expression.singles = before ++ leaf :: after →
      (∀ other ∈ before, ∃ v, alone library setting n handler data e other = .ok v) →
        alone library setting n handler data e leaf = .error fault →
          ((evaluate library setting n handler expression data).run e).1 = .error fault := by
  have hsame : ∀ leaf ∈ expression.singles,
      IsUndisturbed setting n e ((evaluateStrict library setting n leaf data).run e).2 := by
    intro leaf hleaf
    refine ⟨(hkept leaf hleaf).1, fun m => ?_, (hkept leaf hleaf).2⟩
    rcases hcache with hcurrent | htrees
    · rw [evaluateStrict, forEach_of_mem_singles _ expression hleaf, calculator_isolated]
      exact treeOf_evaluateOne hcurrent library n leaf data m
    · exact htrees leaf hleaf m
  rw [run_evaluate_eq_forEach hhas hfree hhandler hsame]
  exact ⟨fun value h => forEach_eq_ok expression h, fun before leaf after fault hsingles h hleaf =>
    forEach_eq_error hleaf expression hsingles h⟩

/-! ### Names bound elsewhere -/

/-- Two default functions that run on the calculator of number 1: one binds a name there, the other
reads it by way of a formula. -/
def lending : Setting :=
  { Setting.initial .empty with
    defaults := (Registry.builtins.add
      ⟨"BS", .any, .routine "bind_seen" (some 1), 1, some 1⟩).add
      ⟨"SC", .any, .routine "scale" (some 1), 1, some 1⟩ }

/-- Two calculators, of which the one of number 1 knows the formula. -/
def lenders : Ensemble :=
  (empty.put 0 (.usual .empty [])).put 1 (.usual .empty [("factor", .node (.identifier "seen"))])

theorem lending_eq : lending = ⟨Builtin.all.map (fun b => (b.function.name, b.function)) ++
    [("BS", ⟨"BS", .any, .routine "bind_seen" (some 1), 1, some 1⟩),
      ("SC", ⟨"SC", .any, .routine "scale" (some 1), 1, some 1⟩)], [], true, .empty⟩ := by
  rw [lending, Setting.initial_eq, Registry.builtins_eq]
  rfl

theorem lenders_eq : lenders =
    (empty.put 0 ⟨⟨false, false, []⟩, [], [], true, .ofSeed [], none⟩).put 1
      ⟨⟨false, false, [("factor", .node (.identifier "seen"))]⟩, [], [], true, .ofSeed [], none⟩ :=
  rfl

/-- Nothing was parsed yet. -/
theorem isCurrent_lenders (m : Nat) (text : String) :
    (lenders.calculator m).IsCurrent lending text := by
  have hcache : ∀ m, (lenders.calculator m).cache = .ofSeed [] := by
    intro m
    rw [lenders, calculator_put, calculator_put]
    split
    · rfl
    · split
      · rfl
      · rfl
  intro v hv
  rw [Calculator.cached?, hcache m] at hv
  cases hv

theorem evaluateStrict_bindSeen :
    ((evaluateStrict Samples.library lending 0 (.text "BS('x')") .none).run lenders).1 =
      .ok (.text "x") := by
  rw [lending_eq, lenders_eq]
  cbv

/-- Alone, the second function reads a name without a value, and leaves what is bound alone. -/
theorem evaluateStrict_scale :
    ((evaluateStrict Samples.library lending 0 (.text "SC('y')") .none).run lenders).1 =
      .error (.unbound ["seen"] none) ∧
    ((evaluateStrict Samples.library lending 0 (.text "SC('y')") .none).run lenders).2.boundBy =
      lenders.boundBy ∧
    ((evaluateStrict Samples.library lending 0 (.text "SC('y')") .none).run lenders).2.notes =
      lenders.notes := by
  rw [lending_eq, lenders_eq]
  refine ⟨?_, ?_, ?_⟩
  · cbv
  · cbv
  · cbv

/-- A calculator with functions of its own, of which one counts its calls and one clears the cache.
The third was registered anew after a call of it was parsed. -/
def remembering : Ensemble := empty.put 0
  { Calculator.usual .empty [] with
    registry := [("N", ⟨"N", .any, .routine "count_calls" none, 0, some 0⟩),
      ("CLR", ⟨"CLR", .any, .routine "forget" none, 0, some 0⟩),
      ("F", ⟨"F", .any, .routine "count_all" none, 0, none⟩)]
    cache := .ofSeed [("F()", .node (.call ⟨"F", .any, .routine "three" none, 0, some 0⟩ []))] }

/-- **None of the provisos can go.** What is bound elsewhere stays bound: alone, the second
expression reads a name without a value, which is forgivable; after the first one it has the text
that was bound there, which fails it otherwise and so fails the list. What a function notes it knows
when it is called again. And an old tree that one expression has the cache forget is not found by
the next. -/
theorem run_evaluate_ne_singles :
    (((evaluateStrict Samples.library lending 0 (.text "BS('x')") .none).run lenders).1 =
        .ok (.text "x") ∧
      ((evaluateStrict Samples.library lending 0 (.text "SC('y')") .none).run lenders).1 =
        .error (.unbound ["seen"] none) ∧
      ((evaluate Samples.library lending 0 .silent (.list [.text "BS('x')", .text "SC('y')"])
        .none).run lenders).1 = .error .wrongType) ∧
    (((evaluateStrict Samples.library (.initial .empty) 0 (.text "N()") .none).run
        remembering).1 = .ok (.int 1) ∧
      ((evaluate Samples.library (.initial .empty) 0 .silent (.list [.text "N()", .text "N()"])
        .none).run remembering).1 = .ok (.list [.int 1, .int 2])) ∧
    ((evaluateStrict Samples.library (.initial .empty) 0 (.text "F()") .none).run
        remembering).1 = .ok (.int 3) ∧
      ((evaluate Samples.library (.initial .empty) 0 .silent (.list [.text "CLR()", .text "F()"])
        .none).run remembering).1 = .ok (.list [.none, .int 0]) := by
  refine ⟨⟨evaluateStrict_bindSeen, evaluateStrict_scale.1, ?_⟩, ⟨?_, ?_⟩, ?_, ?_⟩
  · rw [lending_eq, lenders_eq]
    cbv
  all_goals
    rw [remembering, Calculator.usual_eq, Setting.initial_eq]
    cbv

theorem evaluateStrict_one :
    ((evaluateStrict Samples.library lending 0 (.text "1") .none).run lenders).1 = .ok (.int 1) ∧
    ((evaluateStrict Samples.library lending 0 (.text "1") .none).run lenders).2.boundBy =
      lenders.boundBy ∧
    ((evaluateStrict Samples.library lending 0 (.text "1") .none).run lenders).2.notes =
      lenders.notes := by
  rw [lending_eq, lenders_eq]
  refine ⟨?_, ?_, ?_⟩
  · cbv
  · cbv
  · cbv

/-- A function that only reads on the other calculator is no exception: its expression has the
handler's answer, whatever else is listed. -/
theorem evaluate_readElsewhere :
    ((evaluate Samples.library lending 0 .silent
      (.list [.text "SC('y')", .tuple [.text "1"]]) .none).run lenders).1 =
        .ok (.list [.none, .list [.int 1]]) := by
  have hleaf : ∀ leaf ∈ (Value.list [.text "SC('y')", .tuple [.text "1"]]).singles,
      leaf = .text "SC('y')" ∨ leaf = .text "1" := by
    simp [Value.singles, Value.allSingles]
  have hall := @run_evaluate_singles Samples.library lending 0 lenders .silent
    (.list [.text "SC('y')", .tuple [.text "1"]]) .none rfl rfl
    (fun leaf fault v hv => by obtain rfl : Value.none = v := Except.ok.inj hv; rfl)
    (fun leaf hmem => by
      rcases hleaf leaf hmem with rfl | rfl
      · exact ⟨fun bound => by rw [evaluateStrict_scale.2.1], evaluateStrict_scale.2.2⟩
      · exact ⟨fun bound => by rw [evaluateStrict_one.2.1], evaluateStrict_one.2.2⟩)
    (.inl isCurrent_lenders)
  refine hall.1 (fun leaf => if leaf.text? = some "1" then .int 1 else .none) fun leaf hmem => ?_
  rcases hleaf leaf hmem with rfl | rfl
  · rw [alone, evaluateStrict_scale.1]
    rfl
  · rw [alone, evaluateStrict_one.1]
    rfl

end Ensemble

end Formulary
