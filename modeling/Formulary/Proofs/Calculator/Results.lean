import Formulary.Proofs.Calculator.Solver
import Formulary.Proofs.Mapping.Nesting

/-!
# The results that a bulk solve returns

A bulk solve records one result for each of its flat keys: it comes to every expression in its turn
and the result stays as it was recorded then (`exists_records_of_run_solveNames`). In the end the
results are nested. If no result is a mapping, flattening what is returned gives back the results
with their keys, but for those that a later key displaces because the path of one leads on from the
other's (`flatten_of_run_solve`): `a` and `a.b` cannot both be leaves of one nested mapping.
-/

namespace Formulary

namespace Ensemble

variable {library : Library} {setting : Setting} {n : Nat} {handler : SolveHandler}
  {named : List Named}

/-! ### Results are recorded once -/

/-- Whether a solve of names in an order comes to an expression and records a value as its
result. -/
def Records (library : Library) (setting : Setting) (n : Nat) (handler : SolveHandler)
    (named : List Named) (p : Progress) (order : List String) (e : Ensemble)
    (x : Named) (v : Value) : Prop :=
  ∃ front back q q' e₁ e₂, order = front ++ x.name :: back ∧
    (solveNames (evaluateEach library setting n) handler n named p front).run e =
      (.ok q, e₁) ∧
    (solveOne (evaluateEach library setting n) handler n q x).run e₁ = (.ok q', e₂) ∧
    Table.get? q'.results x.name = some v

/-- **One name of a solve that returns**: further names are solved from where it ends, and only the
result of this name is recorded, if an expression has it. -/
theorem exists_step_of_run_solveNames {p p' : Progress} {name : String} {rest : List String}
    {e e' : Ensemble}
    (h : (solveNames (evaluateEach library setting n) handler n named p (name :: rest)).run e =
      (.ok p', e')) :
    ∃ q e₁,
      (∀ order, (solveNames (evaluateEach library setting n) handler n named p
          (name :: order)).run e =
        (solveNames (evaluateEach library setting n) handler n named q order).run e₁) ∧
      (∀ z, z ≠ name → Table.get? q.results z = Table.get? p.results z) ∧
      ∀ x, named.find? (·.name == name) = some x → ∃ o, q = p.record x o ∧
        (solveOne (evaluateEach library setting n) handler n p x).run e = (.ok q, e₁) := by
  rcases hfind : named.find? (·.name == name) with - | y
  · refine ⟨p, e, fun order => ?_, fun _ _ => rfl, fun x hx => ?_⟩
    · rw [solveNames, hfind]
    · rw [hfind] at hx
      cases hx
  · rw [solveNames, hfind] at h
    obtain ⟨q, e₁, hone, -⟩ := Stateful.run_bind_eq_ok_iff.mp h
    obtain ⟨o, rfl, -⟩ := exists_record_of_run_solveOne hone
    have hname : y.name = name := by simpa using List.find?_some hfind
    refine ⟨p.record y o, e₁, fun order => ?_, fun z hz => ?_, fun x hx => ?_⟩
    · rw [solveNames, hfind, Stateful.run_bind, hone]
    · rw [p.get?_results_record, hname, if_neg hz.symm]
    · obtain rfl := Option.some.inj (hfind.symm.trans hx)
      exact ⟨o, rfl, hone⟩

/-- The results of names that are not in the order stay as they are. -/
theorem get?_results_of_not_mem {p p' : Progress} {order : List String} {e e' : Ensemble}
    (h : (solveNames (evaluateEach library setting n) handler n named p order).run e =
      (.ok p', e')) {z : String} (hz : z ∉ order) :
    Table.get? p'.results z = Table.get? p.results z := by
  induction order generalizing p e with
  | nil =>
    obtain ⟨hp, -⟩ := Prod.mk.inj h
    rw [Except.ok.inj hp]
  | cons name rest ih =>
    rw [List.mem_cons, not_or] at hz
    obtain ⟨q, e₁, hrun, hothers, -⟩ := exists_step_of_run_solveNames h
    rw [hrun] at h
    rw [ih h hz.2, hothers z hz.1]

/-- **Every name in the order gets the result that is recorded when the solve comes to it.** -/
theorem exists_records_of_run_solveNames {p p' : Progress} {order : List String} {e e' : Ensemble}
    (hnamed : (namesOf named).Nodup)
    (h : (solveNames (evaluateEach library setting n) handler n named p order).run e =
      (.ok p', e')) (horder : order.Nodup) {x : Named} (hx : x ∈ named) (hmem : x.name ∈ order) :
    ∃ v, Table.get? p'.results x.name = some v ∧
      Records library setting n handler named p order e x v := by
  induction order generalizing p e with
  | nil => cases hmem
  | cons name rest ih =>
    obtain ⟨hnew, hrest⟩ := List.nodup_cons.mp horder
    obtain ⟨q, e₁, hrun, -, hfound⟩ := exists_step_of_run_solveNames h
    rw [hrun] at h
    by_cases hname : name = x.name
    · subst hname
      obtain ⟨o, rfl, hone⟩ := hfound x (find?_of_mem hnamed hx)
      have hresult : Table.get? (p.record x o).results x.name = some o.result := by
        rw [p.get?_results_record, if_pos rfl]
      exact ⟨o.result, by rw [get?_results_of_not_mem h hnew, hresult],
        [], rest, p, _, e, e₁, rfl, rfl, hone, hresult⟩
    · have hmem' := (List.mem_cons.mp hmem).resolve_left (Ne.symm hname)
      obtain ⟨v, hv, front, back, r, r', e₂, e₃, rfl, hfront, hrecord⟩ := ih h hrest hmem'
      exact ⟨v, hv, name :: front, back, r, r', e₂, e₃, rfl, (hrun front).trans hfront, hrecord⟩

/-! ### The results of a solve -/

/-- Whether a bulk solve comes to an expression and records a value as its result. -/
def SolvesTo (library : Library) (setting : Setting) (n : Nat) (handler : SolveHandler)
    (expressions : Value) (e : Ensemble) (x : Named) (v : Value) : Prop :=
  ∃ named order c',
    namedExpressions (e.calculator n).bindings expressions = .ok (named, none) ∧ x ∈ named ∧
    (solveOrder setting named none).run (e.calculator n) = (.ok order, c') ∧
    Records library setting n handler named .none order (e.put n c'.attached) x v

/-- The results of a solve, in the order of the flat mapping: each under the key of its expression,
and the one that was recorded for it. -/
def AreResults (library : Library) (setting : Setting) (n : Nat) (handler : SolveHandler)
    (expressions : Value) (e : Ensemble) (flat results : Mapping) : Prop :=
  List.Forall₂ (fun entry result => result.1 = entry.1 ∧ SolvesTo library setting n handler
    expressions e (namedOf (e.calculator n).bindings entry) result.2) flat results

variable {expressions : Value} {entries : Mapping} {e : Ensemble}

theorem areResults_resultsByKey {p : Progress} {flat : Mapping}
    (h : ∀ entry ∈ flat, ∃ v,
      Table.get? p.results (namedOf (e.calculator n).bindings entry).name = some v ∧
      SolvesTo library setting n handler expressions e
        (namedOf (e.calculator n).bindings entry) v) :
    AreResults library setting n handler expressions e flat
      (resultsByKey (flat.map (namedOf (e.calculator n).bindings)) p) := by
  induction flat with
  | nil => exact .nil
  | cons entry rest ih =>
    obtain ⟨⟨v, hv, hsolves⟩, hrest⟩ := List.forall_mem_cons.mp h
    rw [resultsByKey, List.map_cons, List.filterMap_cons, hv]
    exact .cons ⟨rfl, hsolves⟩ (ih hrest)

theorem AreResults.keys {flat results : Mapping}
    (h : AreResults library setting n handler expressions e flat results) :
    Table.keys results = Table.keys flat := by
  induction h with
  | nil => rfl
  | cons hfirst _ ih => exact congrArg₂ List.cons hfirst.1 ih

/-- A solve of a flat mapping that returns has recorded a result for every key. -/
theorem areResults_of_run_solveFlat {p : Progress} {e₁ : Ensemble}
    (hentries : expressions.entries? = some entries)
    (h : (solveFlat library setting n handler expressions).run e = (.ok (named, p), e₁)) :
    AreResults library setting n handler expressions e
      (entries.flattenUnless (e.calculator n).bindings.ignoreNested) (resultsByKey named p) := by
  obtain ⟨fault, order, c', after, hnamed, horder, hsolve, -⟩ := run_solveFlat_eq_ok_iff.mp h
  have hnodup := (namesOf_namedExpressions hnamed).1
  obtain ⟨hordersFor, -, rfl⟩ := Calculator.ordersFor_of_run_solveOrder hnodup horder
  obtain ⟨flat, hflatten, rfl, -⟩ := namedExpressions_eq_ok_iff.mp hnamed
  have hflat : flat = entries.flattenUnless (e.calculator n).bindings.ignoreNested := by
    rw [flatExpressions, hentries] at hflatten
    exact (Prod.mk.inj (Except.ok.inj hflatten)).1.symm
  rw [← hflat]
  refine areResults_resultsByKey fun entry hentry => ?_
  have hx : namedOf (e.calculator n).bindings entry ∈ flat.map _ := List.mem_map_of_mem hentry
  obtain ⟨v, hv, hrecords⟩ := exists_records_of_run_solveNames hnodup hsolve
    (hordersFor.perm.nodup_iff.mpr hnodup) hx
    (hordersFor.perm.mem_iff.mpr (List.mem_map_of_mem hx))
  exact ⟨v, hv, _, order, c', hnamed, hx, horder, hrecords⟩

/-- **A bulk solve loses no result but those that are displaced**: if it returns, it has recorded a
result for each of its flat keys. If none of them is a mapping, then flattening what it returns
gives, in some order, the results under their own keys, except for those whose key a later one
displaces. So it gives all of them if the path of no key leads on from that of another. -/
theorem flatten_of_run_solve {w : Value} {e' : Ensemble}
    (hentries : expressions.entries? = some entries) (hapart : Table.HasApartKeys entries)
    (h : (solve library setting n handler expressions).run e = (.ok w, e')) :
    ∃ named p e₁ results, (solveFlat library setting n handler expressions).run e =
        (.ok (named, p), e₁) ∧ results = resultsByKey named p ∧
      AreResults library setting n handler expressions e
        (entries.flattenUnless (e.calculator n).bindings.ignoreNested) results ∧
      ((∀ result ∈ results, result.2.isMap = false) → ∃ nested : Mapping, w = .map nested ∧
        (nested.flatten.map fun leaf => (leaf.1.bare, leaf.2)).Perm
          ((Mapping.lasting results).map fun result => (result.1.bare, result.2)) ∧
        ((Table.keys results).Pairwise (fun key later => Path.displaces key later = false) →
          Mapping.lasting results = results)) := by
  obtain ⟨named, p, e₁, hflat⟩ := exists_run_solveFlat_of_run_solve h
  have hresults := areResults_of_run_solveFlat hentries hflat
  refine ⟨named, p, e₁, _, hflat, rfl, hresults, fun hplain => ?_⟩
  have hkeys : Table.HasApartKeys (resultsByKey named p) := by
    rw [Table.HasApartKeys, hresults.keys]
    rcases (e.calculator n).bindings.ignoreNested with - | -
    · exact Table.hasApartKeys_ofPairs _
    · exact hapart
  have hnested := run_solve_of_isMap hflat fun x hx v hv =>
    hplain (x.key, v) (List.mem_filterMap.mpr ⟨x, hx, by rw [hv]; rfl⟩)
  refine ⟨_, Except.ok.inj (Prod.mk.inj (h.symm.trans hnested)).1, ?_, Mapping.lasting_eq_self⟩
  have hflatten := (Mapping.flatten_expand hkeys hplain).map fun leaf => (leaf.1.bare, leaf.2)
  simpa only [List.map_map, Function.comp_def, Path.bare_toKey_ofKey] using hflatten

/-- Two expressions whose keys are a name and a path that leads on from it. -/
def colliding : Mapping := [(.text "a", .text "1"), (.text "a.b", .text "2")]

/-- Of two such expressions the first has its result displaced: the solve returns the second
alone. -/
theorem flatten_colliding_ne : ∃ (nested : Mapping) (e' : Ensemble),
    (solve (fun _ => none) (.initial .empty) 0 .strict (.map colliding)).run
      (Ensemble.empty.put 0 (.usual .empty [])) = (.ok (.map nested), e') ∧
    Table.keys (Mapping.flatten colliding) = [.text "a", .text "a.b"] ∧
    nested.flatten = [(.text "a.b", .int 2)] := by
  have hrun : ((solve (fun _ => none) (.initial .empty) 0 .strict (.map colliding)).run
      (Ensemble.empty.put 0 (.usual .empty []))).1 =
        .ok (.map [(.text "a", .map [(.text "b", .int 2)])]) := by
    rw [Calculator.usual_eq, Setting.initial_eq]
    cbv
  exact ⟨_, _, Prod.ext hrun rfl, by cbv, by cbv⟩

/-- A name, a path next to it, a symbol and a number. -/
def separate : Mapping :=
  [(.text "a.b", .text "1"), (.text "a.c", .text "2"), (.symbol "d", .text "3"),
    (.int 5, .text "4")]

/-- Four expressions whose keys leave each other alone have all their results returned. -/
theorem flatten_separate : ∃ (nested : Mapping) (e' : Ensemble),
    (solve (fun _ => none) (.initial .empty) 0 .strict (.map separate)).run
      (Ensemble.empty.put 0 (.usual .empty [])) = (.ok (.map nested), e') ∧
    (nested.flatten.map fun leaf => (leaf.1.bare, leaf.2)).Perm
      [(.text "a.b", .int 1), (.text "a.c", .int 2), (.symbol "d", .int 3), (.int 5, .int 4)] := by
  have hrun : ((solve (fun _ => none) (.initial .empty) 0 .strict (.map separate)).run
      (Ensemble.empty.put 0 (.usual .empty []))).1 =
        .ok (.map [(.text "a", .map [(.text "b", .int 1), (.text "c", .int 2)]),
          (.symbol "d", .int 3), (.int 5, .int 4)]) := by
    rw [Calculator.usual_eq, Setting.initial_eq]
    cbv
  have hflat : (((solveFlat (fun _ => none) (.initial .empty) 0 .strict (.map separate)).run
      (Ensemble.empty.put 0 (.usual .empty []))).1.map fun found =>
        resultsByKey found.1 found.2) =
      .ok [(.text "a.b", .int 1), (.text "a.c", .int 2), (.symbol "d", .int 3),
        (.int 5, .int 4)] := by
    rw [Calculator.usual_eq, Setting.initial_eq]
    cbv
  have hapart : Table.HasApartKeys separate := by
    simp only [Table.HasApartKeys, Table.keys, separate, List.map_cons, List.map_nil]
    decide
  have hentries : (Value.map separate).entries? = some separate := rfl
  obtain ⟨named, p, e₁, results, hp, rfl, -, hresults⟩ :=
    flatten_of_run_solve hentries hapart (Prod.ext hrun rfl)
  rw [hp] at hflat
  have hfound := Except.ok.inj hflat
  simp only at hfound
  rw [hfound] at hresults
  obtain ⟨nested, hnested, hperm, hall⟩ := hresults (by simp [Value.isMap, Value.entries?])
  have hseparate : (Table.keys separate).Pairwise fun key later =>
      Path.displaces key later = false := by
    simp only [Table.keys, separate, List.map_cons, List.map_nil]
    decide
  rw [hall hseparate] at hperm
  obtain rfl := Value.map.inj hnested
  exact ⟨_, _, Prod.ext hrun rfl, hperm⟩

end Ensemble

end Formulary
