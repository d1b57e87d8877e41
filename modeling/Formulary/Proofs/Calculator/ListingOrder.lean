import Formulary.Proofs.Calculator.Locality
import Formulary.Proofs.Calculator.Solver
import Mathlib

/-!
# The order in which expressions are listed

A caller lists the expressions of a bulk solve in some order. Listed in another one they have the
same results, if the graph of the solve shows all that they come to (`solve_perm`): whichever order
the names are put in, each expression then finds the same values under all the names that it comes
to look up.

The proviso is needed. The graph has nothing of the items of a list, so a list may be evaluated
before the names that its items read; nor has it the names that the values of a mapping are bound
under.
-/

namespace Formulary

namespace Ensemble

open Calculator

variable {library : Library} {setting : Setting} {n step calls : Nat} {c : Calculator}
  {answers : Answers} {named : List Named}

/-! ### Outcomes from the names that are read -/

/-- Two tables of solved values that agree on what an expression reads give it one outcome. -/
theorem equations_congr {p : Progress} (hshown : IsShown setting c named p)
    (hunbound : ∀ z ∈ namesOf named, Table.get? c.memory z = none) {t t' : Table String Value}
    (ht : c.bindings.IsFlat t) (ht' : c.bindings.IsFlat t')
    (hformulas : ∀ y v tree, Table.get? t y = some v → v.expr? = some tree →
      ∀ z, c.memory.Reaches tree z → z ∉ namesOf named)
    (hnames : ∀ z, z ∉ namesOf named → Table.get? t z = Table.get? t' z) {x : Named}
    (hx : x ∈ named) {reads : List String}
    (hreads : c.readsOf setting (namesOf named) x.expression = .ok reads)
    (hagree : ∀ z ∈ reads, Table.get? t z = Table.get? t' z) :
    c.equations library setting step calls answers x t =
      c.equations library setting step calls answers x t' := by
  -- what the expression depends on is read, or is no name that is solved
  have hsame : ∀ w ∈ x.expression.singles, ∀ e, c.treeOf setting w = .ok e → ∀ z,
      (z ∈ namesOf named → c.memory.Reaches e z ∨ z ∈ e.needs) →
      Table.get? t z = Table.get? t' z := by
    intro w hw e he z hz
    by_cases hmem : z ∈ namesOf named
    · obtain ⟨hr, rfl⟩ := hshown.readsNames hx hw he hmem (hz hmem)
      exact hagree z (mem_reads_of_dependsOn hr he (hz hmem) (hunbound z hmem) hmem hreads)
    · exact hnames z hmem
  have hopened : ∀ w ∈ x.expression.singles, ∀ e, c.treeOf setting w = .ok e →
      (c.opened (Mapping.ofNames t)).memory.AgreesOn (c.opened (Mapping.ofNames t')).memory e := by
    intro w hw e he
    refine ⟨fun z hz => ?_, fun z hz => ?_⟩
    · rw [get?_opened_ofNames ht, get?_opened_ofNames ht', hsame w hw e he z fun hmem =>
        .inl (reaches_of_opened ht hformulas hz hmem)]
    · rw [Table.has, Table.has, get?_opened_ofNames ht, get?_opened_ofNames ht',
        hsame w hw e he z fun _ => .inr hz]
  rw [equations, equations, outcome_congr rfl hopened]

/-! ### Solving in another order -/

/-- Solved in one order of their names, expressions have the results that they have when they are
solved in another one, if both put each name after those that it reads. -/
theorem exists_solveBy_of_ordersFor {p : Progress} (hshown : IsShown setting c named p)
    (hunbound : ∀ z ∈ namesOf named, Table.get? c.memory z = none)
    (hnamedBy : AreNamedBy c.bindings named) {xs ys : List Named} (hxs : xs.Perm named)
    (hys : ys.Perm named) (hnodup : (namesOf named).Nodup)
    (hxsorder : OrdersFor setting c named (namesOf xs))
    (hysorder : OrdersFor setting c named (namesOf ys))
    (h : solveBy (c.equations library setting step calls answers) .none xs = .ok p) :
    ∃ p', solveBy (c.equations library setting step calls answers) .none ys = .ok p' ∧
      ∀ x ∈ named, Table.get? p'.results x.name = Table.get? p.results x.name := by
  have hxsnames : (namesOf xs).Perm (namesOf named) := hxs.map _
  have hxsnodup := hxsnames.nodup_iff.mpr hnodup
  have hflat : c.bindings.IsFlat p.solved :=
    isFlat_solved hnamedBy hxsnodup (fun x hx => hxs.mem_iff.mp hx) h hshown.flat
  have houtside : ∀ z, z ∉ namesOf named → Table.get? p.solved z = none :=
    fun z hz => get?_solved_of_not_mem h fun hz' => hz (hxsnames.mem_iff.mp hz')
  refine exists_solveBy_of_isBefore hnodup hxs hys h fun x part part' o hbefore hbefore' ho => ?_
  obtain ⟨missing, -, hpart⟩ := hbefore.exists_isWithout
  obtain ⟨missing', -, hpart'⟩ := hbefore'.exists_isWithout
  have hx : x ∈ named := by
    obtain ⟨front, back, hsplit, -⟩ := hbefore
    exact hxs.mem_iff.mp (by simp [hsplit])
  obtain ⟨reads, hreads⟩ := hxsorder.reads x hx
  rw [← ho]
  refine equations_congr hshown hunbound (hpart'.isFlat hflat) (hpart.isFlat hflat)
    (fun y v tree => not_mem_of_get?_solved hshown hxsnodup hxs h hpart') ?_ hx hreads ?_
  · intro z hz
    rw [hpart.get?, hpart'.get?, houtside z hz]
    simp
  · -- what the expression reads stands before it in both orders
    intro z hz
    rw [hbefore.get?_of_mem_reads hnodup hxsorder hx hreads hz,
      hbefore'.get?_of_mem_reads hnodup hysorder hx hreads hz]

/-- The flat part: a solve of the same expressions in another order returns, with the same results.
-/
theorem exists_run_solveFlat_of_perm (hlibrary : ∀ key r, library key = some r → r.IsPassive)
    {e e₁ : Ensemble} (hfresh : e.holdsCallFrom e.calls = false) {expressions other : Value}
    {p : Progress}
    (h : (solveFlat library setting n (.quiet answers) expressions).run e = (.ok (named, p), e₁))
    (hunbound : ∀ z ∈ namesOf named, Table.get? (e.calculator n).memory z = none)
    (hshown : IsShown setting (e.calculator n) named p) {named' : List Named}
    (hnamed' : namedExpressions (e.calculator n).bindings other = .ok (named', none))
    (hperm : named'.Perm named) :
    ∃ p' e₂, (solveFlat library setting n (.quiet answers) other).run e = (.ok (named', p'), e₂) ∧
      ∀ x ∈ named, Table.get? p'.results x.name = Table.get? p.results x.name := by
  have hpassive := @isPassiveRun_of_isPassive library setting n (e.calculator n).attached answers e.step
    e.calls hlibrary
  obtain ⟨xs, hnamed, hxs, horder, hsolve, -, -⟩ :=
    solveBy_of_run_solveFlat h (fun xs _ => hpassive xs) (.inl hfresh)
  obtain ⟨hnodup, hnamedBy⟩ := namesOf_namedExpressions hnamed
  have hordersFor := (ordersFor_of_run_solveOrder hnodup (Prod.ext horder rfl)).1
  -- whatever order is found for the other listing, it also orders this one
  have hagain : ∀ ys, ys.Perm named' →
      ((solveOrder setting named' none).run (e.calculator n)).1 = .ok (namesOf ys) → ∃ p',
        solveBy ((e.calculator n).equations library setting e.step e.calls answers) .none ys =
          .ok p' ∧ ∀ x ∈ named, Table.get? p'.results x.name = Table.get? p.results x.name := by
    intro ys hys hysorder
    have hnodup' := (namesOf_namedExpressions hnamed').1
    have hordersFor' := (ordersFor_of_run_solveOrder hnodup' (Prod.ext hysorder rfl)).1
    exact exists_solveBy_of_ordersFor hshown hunbound hnamedBy hxs (hys.trans hperm) hnodup
      hordersFor (hordersFor'.of_perm hperm.symm) hsolve
  obtain ⟨p', e₂, hrun, -, hsame⟩ := exists_run_solveFlat hnamed' (hordersFor.of_perm hperm)
    (fun ys _ => hpassive ys) (.inl hfresh) hagain
  exact ⟨p', e₂, hrun, hsame⟩

/-! ### Listings by names -/

section

variable {t : Table String Value} {b : Bindings}

theorem flatExpressions_ofNames (hnodup : (Table.keys t).Nodup)
    (hflat : b.ignoreNested = true ∨ ∀ entry ∈ t, entry.2.isMap = false) :
    flatExpressions b (.map (Mapping.ofNames t)) = .ok (Mapping.ofNames t, none) := by
  rcases hi : b.ignoreNested with - | -
  · have hplain := hflat.resolve_left (by simp [hi])
    simp only [flatExpressions, Value.entries?, hi, Mapping.flattenUnless_false,
      Mapping.flatten_ofNames hnodup hplain]
    rfl
  · simp only [flatExpressions, Value.entries?, hi, Mapping.flattenUnless]
    rfl

/-- The results of expressions under the names that they are listed by. -/
def resultsOf (b : Bindings) (p : Progress) (t : Table String Value) : Table String Value :=
  t.filterMap fun entry =>
    (Table.get? p.results (b.normalize (.text entry.1))).map (entry.1, ·)

theorem resultsByKey_ofNames (p : Progress) :
    resultsByKey ((Mapping.ofNames t).map (namedOf b)) p = Mapping.ofNames (resultsOf b p t) := by
  rw [resultsByKey, resultsOf, Mapping.ofNames, Mapping.ofNames, List.map_map, List.filterMap_map,
    List.map_filterMap]
  refine List.filterMap_congr fun entry _ => ?_
  simp [namedOf, Option.map_map]
  rfl

theorem keys_resultsOf (p : Progress) :
    (Table.keys (resultsOf b p t)).Sublist (Table.keys t) := by
  induction t with
  | nil => exact .slnil
  | cons entry rest ih =>
    rw [resultsOf, List.filterMap_cons]
    rcases Table.get? p.results (b.normalize (.text entry.1)) with - | v
    · exact ih.cons _
    · exact ih.cons_cons _

/-- What a solve of a listing by names without points returns are its results. -/
theorem run_solve_ofNames (hnodup : (Table.keys t).Nodup)
    (hdotless : ∀ name ∈ Table.keys t, Path.separator ∉ name.toList) {e e₁ : Ensemble}
    {p : Progress}
    (h : (solveFlat library setting n (.quiet answers) (.map (Mapping.ofNames t))).run e =
      (.ok ((Mapping.ofNames t).map (namedOf b), p), e₁)) :
    (solve library setting n (.quiet answers) (.map (Mapping.ofNames t))).run e =
      (.ok (.map (Mapping.ofNames (resultsOf b p t))), e₁) := by
  have hsub := keys_resultsOf (t := t) (b := b) p
  have hnested := Mapping.expandShared_ofNames
    (fun key v => v.identified (.result e₁.step ((e.calculator n).bindings.normalize key)))
    (hsub.nodup hnodup) fun name hname => hdotless name (hsub.subset hname)
  rw [← resultsByKey_ofNames] at hnested
  rw [run_solve_of_run_solveFlat h hnested, receiveAll_nil, resultsByKey_ofNames]

/-- **The order of listing does not matter**: if a solve returns on expressions under distinct names
that have no points and are not bound, it returns on them in any other order too, and every name has
the same result, if the graph shows all that the expressions come to. -/
theorem exists_run_solve_of_perm (hlibrary : ∀ key r, library key = some r → r.IsPassive)
    {e e' : Ensemble} (hfresh : e.holdsCallFrom e.calls = false) {t' : Table String Value}
    (ht : (Table.keys t).Nodup) (hperm : t'.Perm t)
    (hdotless : ∀ name ∈ Table.keys t, Path.separator ∉ name.toList)
    (hunbound : ∀ name ∈ Table.keys t, Table.get? (e.calculator n).memory
      ((e.calculator n).bindings.normalize (.text name)) = none)
    (hflat : (e.calculator n).bindings.ignoreNested = true ∨ ∀ entry ∈ t, entry.2.isMap = false)
    {w : Value}
    (h : (solve library setting n (.quiet answers) (.map (Mapping.ofNames t))).run e = (.ok w, e')) :
    ∃ named p e₁, (solveFlat library setting n (.quiet answers) (.map (Mapping.ofNames t))).run e =
        (.ok (named, p), e₁) ∧
      (IsShown setting (e.calculator n) named p → ∃ r r' e'', w = .map r ∧
        (solve library setting n (.quiet answers) (.map (Mapping.ofNames t'))).run e =
          (.ok (.map r'), e'') ∧ r'.Perm r) := by
  obtain ⟨named, p, e₁, hrun⟩ := exists_run_solveFlat_of_run_solve h
  refine ⟨named, p, e₁, hrun, fun hshown => ?_⟩
  obtain ⟨fault, -, -, -, hnamed, -⟩ := run_solveFlat_eq_ok_iff.mp hrun
  obtain ⟨flat, hflatten, rfl, hnodup⟩ := namedExpressions_eq_ok_iff.mp hnamed
  rw [flatExpressions_ofNames ht hflat] at hflatten
  obtain ⟨rfl, rfl⟩ := Prod.mk.inj (Except.ok.inj hflatten)
  -- the other listing has the same named expressions in another order
  have hkeys : (Table.keys t').Perm (Table.keys t) := hperm.map _
  have ht' : (Table.keys t').Nodup := hkeys.nodup_iff.mpr ht
  have hnamedperm : ((Mapping.ofNames t').map (namedOf (e.calculator n).bindings)).Perm
      ((Mapping.ofNames t).map (namedOf (e.calculator n).bindings)) := (hperm.map _).map _
  have hnamed' : namedExpressions (e.calculator n).bindings (.map (Mapping.ofNames t')) =
      .ok ((Mapping.ofNames t').map (namedOf (e.calculator n).bindings), none) := by
    refine namedExpressions_eq_ok_iff.mpr ⟨_, flatExpressions_ofNames ht' ?_, rfl, ?_⟩
    · exact hflat.imp_right fun hplain entry hentry => hplain entry (hperm.mem_iff.mp hentry)
    · exact (hnamedperm.map Named.name).nodup_iff.mpr hnodup
  have hunbound' : ∀ z ∈ namesOf ((Mapping.ofNames t).map (namedOf (e.calculator n).bindings)),
      Table.get? (e.calculator n).memory z = none := by
    intro z hz
    simp only [namesOf, Mapping.ofNames, List.map_map] at hz
    obtain ⟨entry, hentry, rfl⟩ := List.mem_map.mp hz
    exact hunbound entry.1 (List.mem_map_of_mem hentry)
  obtain ⟨p', e₂, hrun', hsame⟩ := exists_run_solveFlat_of_perm hlibrary hfresh hrun hunbound'
    hshown hnamed' hnamedperm
  refine ⟨Mapping.ofNames (resultsOf (e.calculator n).bindings p t), _, e₂, ?_,
    run_solve_ofNames ht' (fun name hname => hdotless name (hkeys.mem_iff.mp hname)) hrun', ?_⟩
  · rw [run_solve_ofNames ht hdotless hrun] at h
    exact (Except.ok.inj (Prod.ext_iff.mp h).1).symm
  · have hresults : resultsOf (e.calculator n).bindings p' t' =
        resultsOf (e.calculator n).bindings p t' := by
      refine List.filterMap_congr fun entry hentry => ?_
      have hresult : Table.get? p'.results ((e.calculator n).bindings.normalize (.text entry.1)) =
          Table.get? p.results ((e.calculator n).bindings.normalize (.text entry.1)) :=
        hsame (namedOf _ (.text entry.1, entry.2))
          (List.mem_map_of_mem (List.mem_map_of_mem (hperm.mem_iff.mp hentry)))
      rw [hresult]
    rw [hresults]
    exact (hperm.filterMap _).map _

end

/-- Three expressions, of which the first reads the second and the third is a list. -/
def listed : Table String Value :=
  [("b", .text "a + 1"), ("a", .text "2"), ("c", .list [.text "6"])]

/-- Listed the other way round, the three expressions have the same results. -/
theorem exists_run_solve_listed :
    ∃ r' e'', (solve (fun _ => none) (.initial .empty) 0 .lenient
        (.map (Mapping.ofNames listed.reverse))).run
          (Ensemble.empty.put 0 (.usual .empty [])) = (.ok (.map r'), e'') ∧
      r'.Perm [(.text "b", .int 3), (.text "a", .int 2), (.text "c", .list [.int 6])] := by
  have hrun : ((solve (fun _ => none) (.initial .empty) 0 .lenient
      (.map (Mapping.ofNames listed))).run (Ensemble.empty.put 0 (.usual .empty []))).1 =
      .ok (.map [(.text "b", .int 3), (.text "a", .int 2), (.text "c", .list [.int 6])]) := by
    rw [Calculator.usual_eq, Setting.initial_eq]
    cbv
  have hflat : ((solveFlat (fun _ => none) (.initial .empty) 0 .lenient
      (.map (Mapping.ofNames listed))).run (Ensemble.empty.put 0 (.usual .empty []))).1 =
      .ok ((Mapping.ofNames listed).map (namedOf (Bindings.empty false false)),
        ⟨[("a", .int 2), ("c", .list [.int 6]), ("b", .int 3)],
          [("a", .int 2), ("c", .list [.int 6]), ("b", .int 3)]⟩) := by
    rw [Calculator.usual_eq, Setting.initial_eq]
    cbv
  obtain ⟨named, p, e₁, hp, hperm⟩ := exists_run_solve_of_perm
    (fun key r h => by cases h) (by rfl) (by decide) (List.reverse_perm listed) (by decide)
    (fun _ _ => rfl) (.inr (by simp [listed, Value.isMap, Value.entries?])) (Prod.ext hrun rfl)
  rw [hp] at hflat
  obtain ⟨rfl, rfl⟩ := Prod.mk.inj (Except.ok.inj hflat)
  have hresults : ∀ x ∈ (Mapping.ofNames listed).map (namedOf (Bindings.empty false false)),
      ∀ v, Table.get? [("a", Value.int 2), ("c", .list [.int 6]), ("b", .int 3)] x.name = some v →
        v.expr? = none ∧ v.isMap = false := by
    intro x hx v hv
    have hmem := Table.mem_of_get? hv
    simp only [List.mem_cons, Prod.mk.injEq, List.not_mem_nil, or_false] at hmem
    rcases hmem with ⟨-, rfl⟩ | ⟨-, rfl⟩ | ⟨-, rfl⟩
    all_goals exact ⟨rfl, rfl⟩
  have hshown : IsShown (.initial .empty) ((Ensemble.empty.put 0 (.usual .empty [])).calculator 0)
      ((Mapping.ofNames listed).map (namedOf (Bindings.empty false false)))
      ⟨[("a", .int 2), ("c", .list [.int 6]), ("b", .int 3)],
        [("a", .int 2), ("c", .list [.int 6]), ("b", .int 3)]⟩ := by
    refine ⟨?_, fun x hx v tree hv htree => ?_, .inr fun x hx v hv => (hresults x hx v hv).2⟩
    · intro x hx hr w hw tree htree z hz
      -- nothing but the list reads no names itself, and its item is a number
      have hsix : ((Ensemble.empty.put 0 (.usual .empty [])).calculator 0).treeOf (.initial .empty)
          (.text "6") = .ok (.literal (.int 6)) := by
        rw [Calculator.usual_eq, Setting.initial_eq]
        cbv
      simp only [listed, Mapping.ofNames, namedOf, List.map_cons, List.map_nil, List.mem_cons,
        List.not_mem_nil, or_false] at hx
      rcases hx with rfl | rfl | rfl
      · cases hr
      · cases hr
      · simp only [Value.singles, Value.allSingles, List.append_nil, List.mem_singleton] at hw
        subst hw
        obtain rfl := Except.ok.inj (hsix.symm.trans htree)
        rcases hz with hz | hz
        · cases hz with
          | here h => cases h
          | behind h => cases h
        · cases hz
    · rw [(hresults x hx v hv).1] at htree
      cases htree
  obtain ⟨r, r', e'', hr, hrun', hperm⟩ := hperm hshown
  cases hr
  exact ⟨r', e'', hrun', hperm⟩

end Ensemble

end Formulary
