import Formulary.Proofs.Bindings
import Formulary.Proofs.Calculator.Order
import Formulary.Proofs.Calculator.Passive

/-!
# A solve as a system of equations

One after the other, each named expression gets its outcome from the values solved before it
(`solveBy`). If this runs to its end, each outcome was had from what the final values are without
those of the names to come (`exists_outcome_of_solveBy`). The other way round, values that satisfy
every equation in this way are what a run gives (`solveBy_of_outcomes`), whichever way they were
found. So runs in different orders, or on different calculators, agree as soon as their outcomes do.

A solve whose functions are passive is such a run, one expression after the other (`run_solveOne`):
its outcomes depend on the calculator at the start, the step and the number of the next call only.
-/

namespace Formulary

namespace Ensemble

/-- What a named expression comes to: its result, and what other expressions see of it. -/
structure Outcome where
  result : Value
  seen : Option Value

/-- Progress with an outcome recorded. -/
def Progress.record (p : Progress) (x : Named) (o : Outcome) : Progress :=
  match o.seen with
  | some v => p.solve x.name o.result v
  | Option.none => p.answer x.name o.result

theorem Progress.get?_results_record (p : Progress) (x : Named) (o : Outcome) (z : String) :
    Table.get? (p.record x o).results z =
      if x.name = z then some o.result else Table.get? p.results z := by
  rw [record]
  rcases o.seen with - | v
  · simp [answer, Table.get?_insert]
  · simp [solve, Table.get?_insert]

theorem Progress.get?_solved_record (p : Progress) (x : Named) (o : Outcome) (z : String) :
    Table.get? (p.record x o).solved z =
      if x.name = z then o.seen.or (Table.get? p.solved z) else Table.get? p.solved z := by
  rw [record]
  rcases o.seen with - | v
  · simp [answer]
  · simp [solve, Table.get?_insert]

theorem Progress.nodup_record {p : Progress} (h : (Table.keys p.solved).Nodup) (x : Named)
    (o : Outcome) : (Table.keys (p.record x o).solved).Nodup := by
  rw [record]
  rcases o.seen with - | v
  · exact h
  · exact Table.nodup_keys_insert h _ _

/-! ### Runs -/

/-- Equations for named expressions: what each comes to, given the values solved before. -/
abbrev Equations := Named → Table String Value → Except Failure Outcome

/-- Progress after named expressions in turn. -/
def solveBy (equations : Equations) : Progress → List Named → Except Failure Progress
  | p, [] => .ok p
  | p, x :: rest =>
    match equations x p.solved with
    | .ok o => solveBy equations (p.record x o) rest
    | .error failure => .error failure

/-- Whether a table holds of the values of another one those whose names are not missing. -/
structure IsWithout (missing : List String) (whole part : Table String Value) : Prop where
  nodup : (Table.keys part).Nodup
  get? : ∀ z, Table.get? part z = if z ∈ missing then none else Table.get? whole z

/-- Whether a table holds what is solved, in the order of a run, before an expression. -/
def IsBefore (xs : List Named) (x : Named) (whole part : Table String Value) : Prop :=
  ∃ front back, xs = front ++ x :: back ∧ IsWithout (namesOf (x :: back)) whole part

variable {equations : Equations}

theorem solveBy_cons_eq_ok_iff {x : Named} {rest : List Named} {p p' : Progress} :
    solveBy equations p (x :: rest) = .ok p' ↔
      ∃ o, equations x p.solved = .ok o ∧ solveBy equations (p.record x o) rest = .ok p' := by
  rw [solveBy]
  rcases equations x p.solved with failure | o
  · simp
  · simp

/-- What every step of a run keeps holds at its end. -/
theorem solveBy_induction (Good : Progress → Prop) {xs : List Named}
    (hnext : ∀ p x o, Good p → x ∈ xs → equations x p.solved = .ok o → Good (p.record x o))
    {p p' : Progress} (hp : Good p) (h : solveBy equations p xs = .ok p') : Good p' := by
  induction xs generalizing p with
  | nil =>
    obtain rfl := Except.ok.inj h
    exact hp
  | cons x rest ih =>
    obtain ⟨o, ho, hrest⟩ := solveBy_cons_eq_ok_iff.mp h
    exact ih (fun p y o hp hy => hnext p y o hp (List.mem_cons_of_mem _ hy))
      (hnext p x o hp List.mem_cons_self ho) hrest

/-- A run leaves what it has about other names as it is. -/
theorem get?_solveBy_of_not_mem {xs : List Named} {p p' : Progress}
    (h : solveBy equations p xs = .ok p') {z : String} (hz : z ∉ namesOf xs) :
    Table.get? p'.solved z = Table.get? p.solved z ∧
      Table.get? p'.results z = Table.get? p.results z := by
  induction xs generalizing p with
  | nil =>
    obtain rfl := Except.ok.inj h
    exact ⟨rfl, rfl⟩
  | cons x rest ih =>
    rw [namesOf_cons, List.mem_cons, not_or] at hz
    have hne : ¬ x.name = z := fun h => hz.1 h.symm
    obtain ⟨o, -, hrest⟩ := solveBy_cons_eq_ok_iff.mp h
    obtain ⟨hsolved, hresults⟩ := ih hrest hz.2
    rw [hsolved, hresults, p.get?_solved_record, p.get?_results_record, if_neg hne, if_neg hne]
    exact ⟨rfl, rfl⟩

/-- **A run solves its equations**: each outcome was had from the final values, those of the
expressions from the one in question on being left out. -/
theorem exists_outcome_of_solveBy {xs : List Named} (hnodup : (namesOf xs).Nodup) {p p' : Progress}
    (h : solveBy equations p xs = .ok p') (hkeys : (Table.keys p.solved).Nodup)
    (hnew : ∀ z ∈ namesOf xs, Table.get? p.solved z = none) {front back : List Named} {x : Named}
    (hx : xs = front ++ x :: back) :
    ∃ part o, IsWithout (namesOf (x :: back)) p'.solved part ∧ equations x part = .ok o ∧
      Table.get? p'.results x.name = some o.result ∧ Table.get? p'.solved x.name = o.seen := by
  induction xs generalizing p front with
  | nil => simp at hx
  | cons y rest ih =>
    rw [namesOf_cons, List.nodup_cons] at hnodup
    obtain ⟨o, ho, hrun⟩ := solveBy_cons_eq_ok_iff.mp h
    cases front with
    | nil =>
      -- this is the expression, and the rest of the run leaves what it has under its name
      obtain ⟨rfl, rfl⟩ := List.cons.inj hx
      obtain ⟨hsolved, hresults⟩ := get?_solveBy_of_not_mem hrun hnodup.1
      refine ⟨p.solved, o, ⟨hkeys, fun z => ?_⟩, ho, ?_, ?_⟩
      · split
        · next hz => exact hnew z hz
        · next hz =>
          rw [namesOf_cons, List.mem_cons, not_or] at hz
          rw [(get?_solveBy_of_not_mem hrun hz.2).1, p.get?_solved_record,
            if_neg fun h => hz.1 h.symm]
      · rw [hresults, p.get?_results_record, if_pos rfl]
      · rw [hsolved, p.get?_solved_record, if_pos rfl, hnew y.name (by simp)]
        exact Option.or_none
    | cons first front =>
      -- the expression comes later, and its name and those after it are still new
      obtain ⟨rfl, hrest⟩ := List.cons.inj hx
      refine ih hnodup.2 hrun (p.nodup_record hkeys y o) ?_ hrest
      intro z hz
      have hne : ¬ y.name = z := by
        rintro rfl
        exact hnodup.1 hz
      rw [p.get?_solved_record, if_neg hne]
      exact hnew z (List.mem_cons_of_mem _ hz)

/-- **Solutions are what runs give**: if each equation has an outcome in agreement with given values
and results, had from what the values are without those from its name on, a run gets to its end with
these values and results. -/
theorem solveBy_of_outcomes {values : Table String Value} {results : String → Option Value}
    {xs : List Named} (hnodup : (namesOf xs).Nodup) {p : Progress}
    (hstart : IsWithout (namesOf xs) values p.solved)
    (h : ∀ front x back part, xs = front ++ x :: back →
      IsWithout (namesOf (x :: back)) values part →
      ∃ o, equations x part = .ok o ∧ results x.name = some o.result ∧
        Table.get? values x.name = o.seen) :
    ∃ p', solveBy equations p xs = .ok p' ∧ ∀ z ∈ namesOf xs,
      Table.get? p'.solved z = Table.get? values z ∧ Table.get? p'.results z = results z := by
  induction xs generalizing p with
  | nil => exact ⟨p, rfl, by simp [namesOf]⟩
  | cons x rest ih =>
    rw [namesOf_cons, List.nodup_cons] at hnodup
    obtain ⟨o, ho, hresult, hseen⟩ := h [] x rest p.solved rfl hstart
    have hnone : Table.get? p.solved x.name = none := by
      rw [hstart.get?, if_pos (by simp)]
    -- what is solved after this step lacks only the names that are still to come
    have hnext : IsWithout (namesOf rest) values (p.record x o).solved := by
      refine ⟨p.nodup_record hstart.nodup x o, fun z => ?_⟩
      rw [p.get?_solved_record]
      by_cases hz : x.name = z
      · subst hz
        rw [if_pos rfl, if_neg hnodup.1, hnone, Option.or_none, hseen]
      · have hz' : ¬ z = x.name := fun h => hz h.symm
        rw [if_neg hz, hstart.get?]
        simp [hz']
    obtain ⟨p', hrun, hall⟩ := ih hnodup.2 hnext fun front y back part hsplit =>
      h (x :: front) y back part (by rw [hsplit]; rfl)
    refine ⟨p', by rw [solveBy, ho]; exact hrun, ?_⟩
    intro z hz
    rcases List.mem_cons.mp hz with rfl | hz
    · obtain ⟨hsolved, hresults⟩ := get?_solveBy_of_not_mem hrun hnodup.1
      rw [hsolved, hresults, p.get?_solved_record, p.get?_results_record, if_pos rfl, if_pos rfl,
        hnone, Option.or_none, hseen, hresult]
      exact ⟨rfl, rfl⟩
    · exact hall z hz

end Ensemble

namespace Value

theorem isMap_identified (origin : Origin) (v : Value) : (v.identified origin).isMap = v.isMap := by
  cases v with
  | float x =>
    simp only [identified, identifyFrom]
    split
    · rfl
    · rfl
  | complex z =>
    simp only [identified, identifyFrom]
    split
    · rfl
    · rfl
  | _ => rfl

theorem expr?_identified (origin : Origin) (v : Value) :
    (v.identified origin).expr? = v.expr? := by
  cases v with
  | float x =>
    simp only [identified, identifyFrom]
    split
    · rfl
    · rfl
  | complex z =>
    simp only [identified, identifyFrom]
    split
    · rfl
    · rfl
  | _ => rfl

end Value

/-! ### The equations of a calculator -/

namespace Calculator

open Ensemble

/-- What evaluating an expression, or each of a nested list of them, comes to when the numbers of
the calls in it are freed again. -/
def outcome (library : Library) (setting : Setting) (step calls : Nat)
    (leave : Nat → Nat → Value → Value) (c : Calculator) (data : Mapping) (expression : Value) :
    Except Error Value :=
  let counted := (forEach (c.valueOf library setting step data) expression).run calls
  if counted.2 = calls then counted.1 else counted.1.map (leave step calls)

/-- The equations of a solve on a calculator. -/
def equations (library : Library) (setting : Setting) (step calls : Nat) (answers : Answers)
    (c : Calculator) : Equations := fun x solved =>
  let origin := .result step x.name
  match boundValue? c.memory x.name with
  | some v => .ok ⟨v, some v⟩
  | none =>
    match c.outcome library setting step calls (Value.settled origin) (Mapping.ofNames solved)
      x.expression with
    | .ok v => .ok ⟨v, some (v.identified origin)⟩
    | .error fault =>
      if fault.IsRecoverable then (answers ⟨fault, some x.name⟩).map (⟨·, none⟩)
      else .error ⟨fault, none⟩

end Calculator

namespace Ensemble

variable {library : Library} {setting : Setting} {n : Nat} {c : Calculator} {answers : Answers}

/-- The value that stands for a name from the start is the one that is bound to it. -/
theorem get?_of_boundValue? {memory : Memory} {name : String} {v : Value}
    (h : boundValue? memory name = some v) : Table.get? memory name = some v := by
  rw [boundValue?] at h
  split at h
  · cases h
  · next w hw =>
    split at h
    · cases h
    · cases h
    · rw [hw, h]

theorem boundValue?_of_get? {memory : Memory} {name : String} {v : Value}
    (h : Table.get? memory name = some v) (hnode : ∀ tree, v.bare ≠ .node tree)
    (hundefined : v.bare ≠ .undefined) : boundValue? memory name = some v := by
  rw [boundValue?, h]
  simp only

/-- An expression has an outcome in one of three ways: its name is bound, or it has a value, or a
handler answers its failure. -/
theorem equations_cases {step calls : Nat} {x : Named} {solved : Table String Value} {o : Outcome}
    (h : c.equations library setting step calls answers x solved = .ok o) :
    (∃ v, boundValue? c.memory x.name = some v ∧ o = ⟨v, some v⟩) ∨
      boundValue? c.memory x.name = none ∧
        ((∃ v, c.outcome library setting step calls (Value.settled (.result step x.name))
            (Mapping.ofNames solved) x.expression = .ok v ∧
            o = ⟨v, some (v.identified (.result step x.name))⟩) ∨
          ∃ fault v, c.outcome library setting step calls (Value.settled (.result step x.name))
            (Mapping.ofNames solved) x.expression = .error fault ∧ fault.IsRecoverable ∧
            answers ⟨fault, some x.name⟩ = .ok v ∧ o = ⟨v, none⟩) := by
  rw [Calculator.equations] at h
  split at h
  · next v hbound => exact .inl ⟨v, hbound, (Except.ok.inj h).symm⟩
  · next hbound =>
    refine .inr ⟨hbound, ?_⟩
    split at h
    · next v hv => exact .inl ⟨v, hv, (Except.ok.inj h).symm⟩
    · next fault hfault =>
      split at h
      · next hrecoverable =>
        rcases hanswer : answers ⟨fault, some x.name⟩ with failure | v
        · rw [hanswer] at h
          cases h
        · rw [hanswer] at h
          exact .inr ⟨fault, v, hfault, hrecoverable, hanswer, (Except.ok.inj h).symm⟩
      · cases h

/-- What other expressions see of an outcome is its result, perhaps with its objects marked. -/
theorem seen_of_equations {step calls : Nat} {x : Named} {solved : Table String Value}
    {o : Outcome} (h : c.equations library setting step calls answers x solved = .ok o) {v : Value}
    (hv : o.seen = some v) : v = o.result ∨ v = o.result.identified (.result step x.name) := by
  rcases equations_cases h with ⟨w, -, rfl⟩ | ⟨-, ⟨w, -, rfl⟩ | ⟨fault, w, -, -, -, rfl⟩⟩
  · exact .inl (Option.some.inj hv).symm
  · exact .inr (Option.some.inj hv).symm
  · cases hv

/-- Under its name an expression that was run is found with its outcome. -/
theorem exists_outcome_of_mem {equations : Equations} {xs : List Named}
    (hnodup : (namesOf xs).Nodup) {p : Progress} (h : solveBy equations .none xs = .ok p)
    {x : Named} (hx : x ∈ xs) :
    ∃ part o, IsBefore xs x p.solved part ∧ equations x part = .ok o ∧
      Table.get? p.results x.name = some o.result ∧ Table.get? p.solved x.name = o.seen := by
  obtain ⟨front, back, hsplit⟩ := List.append_of_mem hx
  obtain ⟨part, o, hpart, houtcome⟩ := exists_outcome_of_solveBy hnodup h List.nodup_nil
    (fun _ _ => rfl) hsplit
  exact ⟨part, o, ⟨front, back, hsplit, hpart⟩, houtcome⟩

/-- A run solves no names but its own. -/
theorem get?_solved_of_not_mem {equations : Equations} {xs : List Named} {p : Progress}
    (h : solveBy equations .none xs = .ok p) {z : String} (hz : z ∉ namesOf xs) :
    Table.get? p.solved z = none :=
  (get?_solveBy_of_not_mem h hz).1

theorem mem_namesOf_of_get?_solved {equations : Equations} {xs : List Named} {p : Progress}
    (h : solveBy equations .none xs = .ok p) {z : String} {v : Value}
    (hv : Table.get? p.solved z = some v) : z ∈ namesOf xs := by
  by_contra hz
  rw [get?_solved_of_not_mem h hz] at hv
  cases hv

/-- At the start all names of a run are missing, in whatever order. -/
theorem isWithout_none {equations : Equations} {xs : List Named} {p : Progress}
    (h : solveBy equations .none xs = .ok p) {names : List String}
    (hnames : (namesOf xs).Perm names) : IsWithout names p.solved Progress.none.solved := by
  refine ⟨List.nodup_nil, fun z => ?_⟩
  split
  · rfl
  · next hz => exact (get?_solved_of_not_mem h fun hz' => hz (hnames.mem_iff.mp hz')).symm

theorem nodup_solveBy {equations : Equations} {xs : List Named} {p : Progress}
    (h : solveBy equations .none xs = .ok p) : (Table.keys p.solved).Nodup := by
  refine solveBy_induction (fun p => (Table.keys p.solved).Nodup) ?_ ?_ h
  · exact fun p x o hp _ _ => p.nodup_record hp x o
  · exact List.nodup_nil

theorem IsWithout.get?_of_get? {missing : List String} {whole part : Table String Value}
    (h : IsWithout missing whole part) {z : String} {v : Value}
    (hv : Table.get? part z = some v) : Table.get? whole z = some v := by
  rw [h.get?] at hv
  split at hv
  · cases hv
  · exact hv

theorem IsWithout.mem {missing : List String} {whole part : Table String Value}
    (h : IsWithout missing whole part) {entry : String × Value} (hentry : entry ∈ part) :
    entry ∈ whole :=
  Table.mem_of_get? (h.get?_of_get? (Table.get?_of_mem h.nodup hentry))

/-- The names before those that are missing are there. -/
theorem IsWithout.get?_of_mem_front {front back : List Named}
    {whole part : Table String Value} (h : IsWithout (namesOf back) whole part)
    (hnodup : (namesOf (front ++ back)).Nodup) {z : String} (hz : z ∈ namesOf front) :
    Table.get? part z = Table.get? whole z := by
  rw [namesOf_append, List.nodup_append] at hnodup
  rw [h.get?, if_neg fun hback => hnodup.2.2 z hz z hback rfl]

/-- Values without some of the names can be written if all of them can. -/
theorem IsWithout.isFlat {b : Bindings} {missing : List String} {whole part : Table String Value}
    (h : IsWithout missing whole part) (hflat : b.IsFlat whole) : b.IsFlat part := by
  refine ⟨h.nodup, fun name hname => ?_, hflat.leaves.imp_right fun hleaves entry hentry => ?_⟩
  · obtain ⟨entry, hentry, rfl⟩ := List.mem_map.mp hname
    exact hflat.named _ (List.mem_map_of_mem (h.mem hentry))
  · exact hleaves entry (h.mem hentry)

theorem IsBefore.exists_isWithout {xs : List Named} {x : Named} {whole part : Table String Value}
    (h : IsBefore xs x whole part) :
    ∃ missing, missing ⊆ namesOf xs ∧ IsWithout missing whole part := by
  obtain ⟨front, back, rfl, hpart⟩ := h
  refine ⟨_, ?_, hpart⟩
  rw [namesOf_append]
  exact List.subset_append_right _ _

/-- Before an expression there is what its place comes after. -/
theorem IsBefore.get?_eq_ite {xs : List Named} {x : Named} {whole part : Table String Value}
    (h : IsBefore xs x whole part) (hnodup : (namesOf xs).Nodup) {z : String}
    (hz : z ∈ namesOf xs) :
    Table.get? part z = if (namesOf xs).idxOf z < (namesOf xs).idxOf x.name then
      Table.get? whole z else none := by
  obtain ⟨front, back, rfl, hpart⟩ := h
  rw [namesOf_append, namesOf_cons] at hnodup hz ⊢
  have hfront := Calculator.mem_front_iff hnodup z
  rw [hpart.get?, namesOf_cons]
  by_cases hlt : z ∈ namesOf front
  · have hback : z ∉ x.name :: namesOf back := fun hz' =>
      (List.nodup_append.mp hnodup).2.2 z hlt z hz' rfl
    rw [if_pos (hfront.mp hlt), if_neg hback]
  · rw [if_neg fun h => hlt (hfront.mpr h), if_pos ((List.mem_append.mp hz).resolve_left hlt)]

/-- In an order that puts each name after those that it reads, these are there before it. -/
theorem IsBefore.get?_of_mem_reads {setting : Setting} {named ys : List Named} {x : Named}
    {whole part : Table String Value} (h : IsBefore ys x whole part)
    (hnodup : (namesOf named).Nodup) (horder : c.OrdersFor setting named (namesOf ys))
    (hx : x ∈ named) {reads : List String}
    (hreads : c.readsOf setting (namesOf named) x.expression = .ok reads) {z : String}
    (hz : z ∈ reads) : Table.get? part z = Table.get? whole z := by
  obtain ⟨front, back, rfl, hpart⟩ := h
  refine hpart.get?_of_mem_front (horder.perm.nodup_iff.mpr hnodup) ?_
  exact horder.before hx (by rw [namesOf_append]; rfl) hreads z hz

/-- **A run in another order**: equations that have the outcomes that others had in a run, each from
what is solved before it in another order, are solved in this order with the same results. -/
theorem exists_solveBy_of_isBefore {equations equations' : Equations} {named xs ys : List Named}
    {p : Progress} (hnodup : (namesOf named).Nodup) (hxs : xs.Perm named) (hys : ys.Perm named)
    (h : solveBy equations .none xs = .ok p)
    (hagain : ∀ x part part' o, IsBefore xs x p.solved part → IsBefore ys x p.solved part' →
      equations x part = .ok o → equations' x part' = .ok o) :
    ∃ p', solveBy equations' .none ys = .ok p' ∧
      ∀ x ∈ named, Table.get? p'.results x.name = Table.get? p.results x.name := by
  have hxsnames : (namesOf xs).Perm (namesOf named) := hxs.map _
  have hysnames : (namesOf ys).Perm (namesOf named) := hys.map _
  have hstart : IsWithout (namesOf ys) p.solved Progress.none.solved :=
    isWithout_none h (hxsnames.trans hysnames.symm)
  obtain ⟨p', hp', hall⟩ := solveBy_of_outcomes (hysnames.nodup_iff.mpr hnodup) hstart
    fun front x back part' hsplit hpart' => by
      have hx : x ∈ xs := hxs.mem_iff.mpr (hys.mem_iff.mp (by simp [hsplit]))
      obtain ⟨part, o, hpart, ho, hresult, hseen⟩ :=
        exists_outcome_of_mem (hxsnames.nodup_iff.mpr hnodup) h hx
      have ho' := hagain x part part' o hpart ⟨front, back, hsplit, hpart'⟩ ho
      exact ⟨o, ho', hresult, hseen⟩
  exact ⟨p', hp', fun x hx => (hall x.name (hysnames.mem_iff.mpr (List.mem_map_of_mem hx))).2⟩

/-- A name with a plain value is solved to it. -/
theorem solved_of_boundValue? {step calls : Nat} {xs : List Named} (hnodup : (namesOf xs).Nodup)
    {p : Progress}
    (h : solveBy (c.equations library setting step calls answers) .none xs = .ok p) {x : Named}
    (hx : x ∈ xs) {v : Value} (hv : boundValue? c.memory x.name = some v) :
    Table.get? p.results x.name = some v ∧ Table.get? p.solved x.name = some v := by
  obtain ⟨part, o, -, ho, hresult, hseen⟩ := exists_outcome_of_mem hnodup h hx
  rw [Calculator.equations, hv] at ho
  obtain rfl := Except.ok.inj ho
  exact ⟨hresult, hseen⟩

/-- With a handler that passes every failure on, an outcome is a value that was had. -/
theorem outcome_of_equations_strict {step calls : Nat} {x : Named} {solved : Table String Value}
    {o : Outcome} (hbound : boundValue? c.memory x.name = none)
    (h : c.equations library setting step calls .strict x solved = .ok o) :
    c.outcome library setting step calls (Value.settled (.result step x.name))
        (Mapping.ofNames solved) x.expression = .ok o.result ∧
      o.seen = some (o.result.identified (.result step x.name)) := by
  rcases equations_cases h with ⟨v, hv, -⟩ | ⟨-, ⟨v, hv, rfl⟩ | ⟨fault, v, -, -, hanswer, -⟩⟩
  · rw [hbound] at hv
    cases hv
  · exact ⟨hv, rfl⟩
  · cases hanswer

/-- With such a handler every name is solved. -/
theorem exists_get?_solved_strict {step calls : Nat} {xs : List Named}
    (hnodup : (namesOf xs).Nodup) {p : Progress}
    (h : solveBy (c.equations library setting step calls .strict) .none xs = .ok p) {z : String}
    (hz : z ∈ namesOf xs) : ∃ v, Table.get? p.solved z = some v := by
  obtain ⟨x, hx, rfl⟩ := List.mem_map.mp hz
  rcases hbound : boundValue? c.memory x.name with - | v
  · obtain ⟨part, o, -, ho, -, hseen⟩ := exists_outcome_of_mem hnodup h hx
    exact ⟨_, hseen.trans (outcome_of_equations_strict hbound ho).2⟩
  · exact ⟨v, (solved_of_boundValue? hnodup h hx hbound).2⟩

/-- A formula that a name is solved to is the result of its expression. -/
theorem exists_result_of_get?_solved {step calls : Nat} {xs : List Named}
    (hnodup : (namesOf xs).Nodup) {p : Progress}
    (h : solveBy (c.equations library setting step calls answers) .none xs = .ok p) {z : String}
    {v : Value} (hv : Table.get? p.solved z = some v) :
    ∃ x ∈ xs, x.name = z ∧ ∃ w, Table.get? p.results x.name = some w ∧ v.expr? = w.expr? ∧
      v.isMap = w.isMap := by
  obtain ⟨x, hx, rfl⟩ := List.mem_map.mp (mem_namesOf_of_get?_solved h hv)
  obtain ⟨part, o, -, ho, hresult, hseen⟩ := exists_outcome_of_mem hnodup h hx
  refine ⟨x, hx, rfl, o.result, hresult, ?_⟩
  rcases seen_of_equations ho (hseen.symm.trans hv) with rfl | rfl
  · exact ⟨rfl, rfl⟩
  · exact ⟨Value.expr?_identified _ _, Value.isMap_identified _ _⟩

/-- The names that a run has solved stand for themselves. -/
theorem normalize_of_mem_keys_solved {b : Bindings} {step calls : Nat} {named xs : List Named}
    (hnamed : AreNamedBy b named) (hsub : ∀ x ∈ xs, x ∈ named) {p : Progress}
    (h : solveBy (c.equations library setting step calls answers) .none xs = .ok p) {name : String}
    (hname : name ∈ Table.keys p.solved) : b.normalize (.text name) = name := by
  obtain ⟨v, hv⟩ := Table.exists_get?_of_mem hname
  obtain ⟨x, hx, rfl⟩ := List.mem_map.mp (mem_namesOf_of_get?_solved h hv)
  rw [hnamed x (hsub x hx)]
  exact b.normalize_text_normalize x.key

/-- What a run has solved can be written as it is, unless some result is a mapping. -/
theorem isFlat_solved {b : Bindings} {step calls : Nat} {named xs : List Named}
    (hnamed : AreNamedBy b named) (hnodup : (namesOf xs).Nodup) (hsub : ∀ x ∈ xs, x ∈ named)
    {p : Progress}
    (h : solveBy (c.equations library setting step calls answers) .none xs = .ok p)
    (hflat : b.ignoreNested = true ∨
      ∀ x ∈ named, ∀ v, Table.get? p.results x.name = some v → v.isMap = false) :
    b.IsFlat p.solved := by
  refine ⟨nodup_solveBy h, fun name hname => normalize_of_mem_keys_solved hnamed hsub h hname,
    hflat.imp_right fun hplain entry hentry => ?_⟩
  obtain ⟨x, hx, -, w, hw, -, hmap⟩ :=
    exists_result_of_get?_solved hnodup h (Table.get?_of_mem (nodup_solveBy h) hentry)
  rw [hmap]
  exact hplain x (hsub x hx) w hw

/-- **One step of a solve** records one outcome, whatever its functions and its handler do. What is
seen of it is its result, perhaps with its objects marked. -/
theorem exists_record_of_run_solveOne {evaluate : Value → Value → Run Value}
    {handler : SolveHandler} {p q : Progress} {x : Named} {e after : Ensemble}
    (h : (solveOne evaluate handler n p x).run e = (.ok q, after)) :
    ∃ o, q = p.record x o ∧
      ∀ v, o.seen = some v → v = o.result ∨ v = o.result.identified (.result e.step x.name) := by
  rw [solveOne, Stateful.run_bind, Stateful.run_get] at h
  simp only at h
  split at h
  · next v hv =>
    obtain ⟨hq, -⟩ := Prod.mk.inj h
    exact ⟨⟨v, some v⟩, (Except.ok.inj hq).symm, fun w hw => .inl (Option.some.inj hw).symm⟩
  · simp only [solveAnew, ExceptT.run_mk] at h
    rcases hrun : (isolated (Value.settled (.result e.step x.name))
      (evaluate x.expression p.data)).run e with ⟨fault | v, e'⟩
    · rw [hrun] at h
      simp only at h
      split at h
      · rw [map_eq_pure_bind] at h
        obtain ⟨v, e₁, -, hq⟩ := Stateful.run_bind_eq_ok_iff.mp h
        obtain ⟨hq, -⟩ := Prod.mk.inj hq
        exact ⟨⟨v, none⟩, (Except.ok.inj hq).symm, fun w hw => by cases hw⟩
      · cases h
    · rw [hrun] at h
      obtain ⟨hq, -⟩ := Prod.mk.inj h
      exact ⟨⟨v, some _⟩, (Except.ok.inj hq).symm, fun w hw => .inr (Option.some.inj hw).symm⟩

/-- Freeing the numbers of the calls in a computation that does no more than to learn and to
count. -/
theorem run_isolated_of_follows {step : Nat} {run : Run Value} {count : Counting Value}
    (hf : Follows setting n c step run count) {e : Ensemble}
    (hc : c.Learnt setting (e.calculator n)) (hs : e.step = step)
    (hfree : (count.run e.calls).2 = e.calls ∨ e.holdsCallFrom e.calls = false)
    (leave : Nat → Nat → Value → Value) :
    ∃ e', (isolated leave run).run e =
        (if (count.run e.calls).2 = e.calls then (count.run e.calls).1
          else (count.run e.calls).1.map (leave step e.calls), e') ∧
      e'.calls = e.calls ∧ Learnt setting n e e' := by
  obtain ⟨after, hrun, hcalls, hlearnt⟩ := hf e hc hs
  rw [isolated, ExceptT.run_mk, hrun]
  by_cases hsame : (count.run e.calls).2 = e.calls
  · rw [if_pos hsame]
    rw [hsame] at hcalls
    exact ⟨after, by simp [hcalls], hcalls, hlearnt⟩
  · rw [if_neg hsame]
    have hheld := hlearnt.holdsCallFrom (hfree.resolve_left hsame)
    refine ⟨{ after with calls := e.calls }, ?_, rfl, hlearnt.trans (learnt_calls after e.calls)⟩
    rw [← hcalls] at hsame
    simp [hsame, hheld, hs]

section

variable {p : Progress} {x : Named} {e : Ensemble}
  (hf : Follows setting n c e.step
    (evaluateEach library setting n x.expression (.map (Mapping.ofNames p.solved)))
    (forEach (c.valueOf library setting e.step (Mapping.ofNames p.solved)) x.expression))
  (hc : c.Learnt setting (e.calculator n))
  (hfree : ((forEach (c.valueOf library setting e.step (Mapping.ofNames p.solved))
    x.expression).run e.calls).2 = e.calls ∨ e.holdsCallFrom e.calls = false)

include hf hc hfree

/-- Where functions are passive, an expression comes to its outcome before a handler is asked. -/
theorem run_solveAnew (handler : SolveHandler) :
    ∃ e', (solveAnew (evaluateEach library setting n) handler p x).run e =
        (match c.outcome library setting e.step e.calls (Value.settled (.result e.step x.name))
          (Mapping.ofNames p.solved) x.expression with
        | .ok v => (.ok (p.solve x.name v (v.identified (.result e.step x.name))), e')
        | .error fault =>
          if fault.IsRecoverable then (p.answer x.name <$> handler ⟨fault, some x.name⟩).run e'
          else (.error ⟨fault, none⟩, e')) ∧
      e'.calls = e.calls ∧ Learnt setting n e e' := by
  obtain ⟨e', hrun, hcalls, hlearnt⟩ :=
    run_isolated_of_follows hf hc rfl hfree (Value.settled (.result e.step x.name))
  refine ⟨e', ?_, hcalls, hlearnt⟩
  have hrun : (isolated (Value.settled (.result e.step x.name))
      (evaluateEach library setting n x.expression p.data)).run e =
      (c.outcome library setting e.step e.calls (Value.settled (.result e.step x.name))
        (Mapping.ofNames p.solved) x.expression, e') := hrun
  simp only [solveAnew, ExceptT.run_mk, hrun]
  rcases c.outcome library setting e.step e.calls (Value.settled (.result e.step x.name))
    (Mapping.ofNames p.solved) x.expression with fault | v
  · rfl
  · rfl

/-- One step of a solve whose functions are passive and whose handler only answers: its progress is
told by the equations. -/
theorem run_solveOne (hview : c.view = c.memory) (answers : Answers) :
    ∃ e', (solveOne (evaluateEach library setting n) (.quiet answers) n p x).run e =
        ((c.equations library setting e.step e.calls answers x p.solved).map (p.record x), e') ∧
      e'.calls = e.calls ∧ Learnt setting n e e' := by
  rw [solveOne, Calculator.equations, Stateful.run_bind, Stateful.run_get]
  simp only [hc.view, hview]
  rcases boundValue? c.memory x.name with - | v
  · obtain ⟨e', hrun, hcalls, hlearnt⟩ := run_solveAnew hf hc hfree (.quiet answers)
    refine ⟨e', ?_, hcalls, hlearnt⟩
    simp only [hrun]
    rcases c.outcome library setting e.step e.calls (Value.settled (.result e.step x.name))
      (Mapping.ofNames p.solved) x.expression with fault | v
    · by_cases hr : fault.IsRecoverable
      · simp only [if_pos hr]
        rcases hanswer : answers ⟨fault, some x.name⟩ with failure | v
        · rw [SolveHandler.quiet, hanswer]
          rfl
        · rw [SolveHandler.quiet, hanswer]
          rfl
      · simp only [if_neg hr]
        rfl
    · rfl
  · exact ⟨e, rfl, rfl, .refl e⟩

end

end Ensemble

end Formulary
