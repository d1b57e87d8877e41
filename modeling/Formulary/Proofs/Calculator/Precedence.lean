import Formulary.Proofs.Calculator.Locality
import Formulary.Proofs.Calculator.Solver
import Mathlib

/-!
# Expressions and formulas of one name

A formula that the calculator binds to the name of an expression does not count as the value of that
name: the expression is solved all the same. So a strict solve should return with the formula what
it returns without it. It does if the formula is never seen instead of the result, that is, if the
order puts each expression after the names with formulas that it comes to look up
(`exists_run_solve_of_without`).

The proviso is needed. The graph of a solve looks through a bound formula and shows what is behind
it, not the name itself, so nothing keeps an expression from being evaluated too early.
-/

namespace Formulary

/-- A calculator with some names not bound. -/
def Calculator.without (left : String → Bool) (c : Calculator) : Calculator :=
  { c with bindings := { c.bindings with
      memory := c.memory.filter fun entry => !left entry.1 } }

namespace Calculator

variable {setting : Setting} {left : String → Bool} {c : Calculator}

theorem get?_without (left : String → Bool) (c : Calculator) (z : String) :
    Table.get? (c.without left).memory z = if left z then none else Table.get? c.memory z := by
  have hfilter := Table.get?_filter c.memory (fun name => !left name) z
  rw [show (c.without left).memory = c.memory.filter fun entry => !left entry.1 from rfl, hfilter]
  rcases left z with - | - <;> rfl

theorem treeOf_without (left : String → Bool) (c : Calculator) :
    (c.without left).treeOf setting = c.treeOf setting :=
  treeOf_congr rfl rfl rfl rfl rfl

theorem namedExpressions_without (left : String → Bool) (c : Calculator) :
    Ensemble.namedExpressions (c.without left).bindings =
      Ensemble.namedExpressions c.bindings :=
  Ensemble.namedExpressions_congr rfl rfl

/-- What is bound without some names is bound with them. -/
theorem get?_of_without {z : String} {v : Value}
    (h : Table.get? (c.without left).memory z = some v) : Table.get? c.memory z = some v := by
  rw [get?_without] at h
  split at h
  · cases h
  · exact h

theorem holdsCallFrom_without {step number : Nat} (h : c.holdsCallFrom step number = false) :
    (c.without left).holdsCallFrom step number = false := by
  rw [holdsCallFrom, List.any_eq_false] at h ⊢
  intro entry hentry
  rcases List.mem_append.mp hentry with hentry | hentry
  · exact h entry (List.mem_append_left _ (List.mem_of_mem_filter hentry))
  · refine h entry ?_
    rw [view] at hentry ⊢
    rcases hd : c.detached with - | detached
    · rw [show (c.without left).detached = none from hd] at hentry
      exact List.mem_append_left _ (List.mem_of_mem_filter hentry)
    · rw [show (c.without left).detached = some detached from hd] at hentry
      exact List.mem_append_right _ hentry

end Calculator

namespace Ensemble

open Calculator

variable {library : Library} {setting : Setting} {n : Nat} {left : String → Bool}

/-! ### Alike orders -/

/-- Whether a name is bound to a value that stands aside for an expression of that name: a formula
or the mark of what is undefined. -/
def StandsAside (memory : Memory) (name : String) : Prop :=
  Table.has memory name = true ∧ boundValue? memory name = none

/-- Whether an expression may come to look up a name. -/
def MayLookUp (setting : Setting) (c : Calculator) (x : Named) (name : String) : Prop :=
  ∃ tree, c.treeOf setting x.expression = .ok tree ∧ c.memory.Reaches tree name

/-- Whether the orders of a solve, on a calculator with some names bound and without them, are alike
in what counts: of the expressions and the names with values that stand aside for them, which of the
names come first. For a name that is bound in one of the calculators only it counts just that it
does not come later there than an expression that it precedes in the other one. -/
structure AreAlike (setting : Setting) (left : String → Bool) (c : Calculator)
    (named : List Named) (order other : List String) : Prop where
  found : ((solveOrder setting named none).run c).1 = .ok order
  found' : ((solveOrder setting named none).run (c.without left)).1 = .ok other
  seen : ∀ x ∈ named, ∀ y ∈ namesOf named, StandsAside c.memory y →
    MayLookUp setting (c.without left) x y → other.idxOf y < other.idxOf x.name →
      order.idxOf y < order.idxOf x.name
  unseen : ∀ x ∈ named, ∀ y ∈ namesOf named, StandsAside c.memory y → left y = false →
    MayLookUp setting (c.without left) x y → order.idxOf y < order.idxOf x.name →
      other.idxOf y < other.idxOf x.name

section

variable {c : Calculator} {named xs ys : List Named} {p : Progress} {step calls : Nat}

theorem boundValue?_without (hleft : ∀ y, left y = true → StandsAside c.memory y) (z : String) :
    boundValue? (c.without left).memory z = boundValue? c.memory z := by
  rcases hz : left z with - | -
  · simp [boundValue?, get?_without, hz]
  · rw [(hleft z hz).2]
    simp [boundValue?, get?_without, hz]

/-- A name with a plain value stands for it on both calculators, whether it is solved or not. -/
theorem get?_of_boundValue?_without (hleft : ∀ y, left y = true → StandsAside c.memory y)
    (hnodup : (namesOf xs).Nodup)
    (hsolve : solveBy ((c.without left).equations library setting step calls .strict) .none xs =
      .ok p) {missing missing' : List String} {part part' : Table String Value}
    (hpart : IsWithout missing p.solved part) (hpart' : IsWithout missing' p.solved part')
    {z : String} (hz : z ∈ namesOf xs) {u v : Value} (hu : boundValue? c.memory z = some u)
    (hv : (Table.get? part' z).or (Table.get? (c.without left).memory z) = some v) :
    (Table.get? part z).or (Table.get? c.memory z) = some v := by
  obtain ⟨x, hx, rfl⟩ := List.mem_map.mp hz
  have hbound := get?_of_boundValue? hu
  have hsolved := (solved_of_boundValue? hnodup hsolve hx
    (by rwa [boundValue?_without hleft])).2
  have hsame : v = u := by
    rcases Option.or_eq_some_iff.mp hv with hv | ⟨-, hv⟩
    · exact Option.some.inj ((hpart'.get?_of_get? hv).symm.trans hsolved)
    · exact Option.some.inj ((get?_of_without hv).symm.trans hbound)
  rw [hsame, hbound]
  rcases ht : Table.get? part x.name with - | t
  · rfl
  · rw [Option.some_or, ← hsolved, hpart.get?_of_get? ht]

/-- Two solves at one expression: in the order `ys` with all names bound, with what `part` has been
solved to, and in the order `xs` without some of them, with `part'`. The latter has come to its end.
-/
structure MeetAt (library : Library) (setting : Setting) (step calls : Nat) (left : String → Bool)
    (c : Calculator) (named xs ys : List Named) (p : Progress) (x : Named)
    (part part' : Table String Value) : Prop where
  nodup : (namesOf named).Nodup
  xs_perm : xs.Perm named
  ys_perm : ys.Perm named
  solved : solveBy ((c.without left).equations library setting step calls .strict) .none xs = .ok p
  alike : AreAlike setting left c named (namesOf ys) (namesOf xs)
  part : IsBefore ys x p.solved part
  part' : IsBefore xs x p.solved part'

namespace MeetAt

variable {x : Named} {part part' : Table String Value}
  (h : MeetAt library setting step calls left c named xs ys p x part part')
include h

theorem nodup_xs : (namesOf xs).Nodup := (h.xs_perm.map Named.name).nodup_iff.mpr h.nodup

theorem nodup_ys : (namesOf ys).Nodup := (h.ys_perm.map Named.name).nodup_iff.mpr h.nodup

theorem mem_xs {z : String} (hmem : z ∈ namesOf named) : z ∈ namesOf xs :=
  (h.xs_perm.map Named.name).mem_iff.mpr hmem

theorem mem_ys {z : String} (hmem : z ∈ namesOf named) : z ∈ namesOf ys :=
  (h.ys_perm.map Named.name).mem_iff.mpr hmem

theorem mem : x ∈ named := by
  obtain ⟨front, back, hsplit, -⟩ := h.part
  exact h.ys_perm.mem_iff.mp (by simp [hsplit])

/-- A name whose value stands aside stands for the same on both calculators, if it stands for
anything where some names are not bound. -/
theorem get?_of_standsAside {z : String} (hmem : z ∈ namesOf named)
    (haside : StandsAside c.memory z) (hlook : MayLookUp setting (c.without left) x z) {v : Value}
    (hv : (Table.get? part' z).or (Table.get? (c.without left).memory z) = some v) :
    (Table.get? part z).or (Table.get? c.memory z) = some v := by
  rw [h.part'.get?_eq_ite h.nodup_xs (h.mem_xs hmem)] at hv
  rw [h.part.get?_eq_ite h.nodup_ys (h.mem_ys hmem)]
  split at hv
  · next hbefore =>
    obtain ⟨u, hu⟩ := exists_get?_solved_strict h.nodup_xs h.solved (h.mem_xs hmem)
    rw [if_pos (h.alike.seen x h.mem z hmem haside hlook hbefore), hu]
    rw [hu] at hv
    exact hv
  · next hbefore =>
    -- the value that stands aside is bound on both calculators, and is seen on both
    have hz : left z = false := by
      by_contra hz
      rw [get?_without, if_pos (by simpa using hz)] at hv
      cases hv
    rw [if_neg fun hlater => hbefore (h.alike.unseen x h.mem z hmem haside hz hlook hlater)]
    exact get?_of_without hv

/-- A name that is no expression's, or that has no value on both calculators and is solved before
the expression on both, stands for the same on both, if it stands for anything where some names are
not bound. -/
theorem get?_of_solved {z : String}
    (hz : z ∈ namesOf named → Table.get? c.memory z = none ∧
      Table.get? part z = Table.get? p.solved z) {v : Value}
    (hv : (Table.get? part' z).or (Table.get? (c.without left).memory z) = some v) :
    (Table.get? part z).or (Table.get? c.memory z) = some v := by
  obtain ⟨missing, -, hpart⟩ := h.part.exists_isWithout
  obtain ⟨missing', -, hpart'⟩ := h.part'.exists_isWithout
  by_cases hmem : z ∈ namesOf named
  · obtain ⟨hnone, hpartz⟩ := hz hmem
    rw [get?_without, hnone, ite_self, Option.or_none] at hv
    rw [hpartz, hpart'.get?_of_get? hv, Option.some_or]
  · have hnone : Table.get? p.solved z = none :=
      get?_solved_of_not_mem h.solved fun hz => hmem ((h.xs_perm.map Named.name).mem_iff.mp hz)
    rw [hpart'.get?, hnone, ite_self, Option.none_or] at hv
    rw [hpart.get?, hnone, ite_self, Option.none_or]
    exact get?_of_without hv

/-- A name that the expression depends on and that is bound on neither calculator is solved before
it on both. -/
theorem get?_part_of_dependsOn (hshown : IsShown setting (c.without left) named p) {w : Value}
    (hw : w ∈ x.expression.singles) {e : Expr} (he : (c.without left).treeOf setting w = .ok e)
    {z : String} (hmem : z ∈ namesOf named) (hnone : Table.get? c.memory z = none)
    (hz : (c.without left).memory.Reaches e z ∨ z ∈ e.needs) :
    Table.get? part z = Table.get? p.solved z := by
  have horder := (ordersFor_of_run_solveOrder h.nodup (Prod.ext h.alike.found rfl)).1
  obtain ⟨hr, rfl⟩ := hshown.readsNames h.mem hw he hmem hz
  rw [treeOf_without] at he
  have hz : c.memory.Reaches e z ∨ z ∈ e.needs :=
    hz.imp_left fun hz => hz.mono fun _ _ _ hv _ => get?_of_without hv
  obtain ⟨reads, hreads⟩ := horder.reads x h.mem
  exact h.part.get?_of_mem_reads h.nodup horder h.mem hreads
    (mem_reads_of_dependsOn hr he hz hnone hmem hreads)

/-- **What an expression finds with some names not bound it finds with them bound**: names that are
solved, names with plain values and names with values that stand aside alike. -/
theorem isKeptOn (hleft : ∀ y, left y = true → StandsAside c.memory y)
    (hshown : IsShown setting (c.without left) named p) (hnamedBy : AreNamedBy c.bindings named)
    {w : Value} (hw : w ∈ x.expression.singles) {e : Expr}
    (he : (c.without left).treeOf setting w = .ok e) :
    ((c.without left).opened (Mapping.ofNames part')).memory.IsKeptOn
      (c.opened (Mapping.ofNames part)).memory e := by
  obtain ⟨missing, -, hpart⟩ := h.part.exists_isWithout
  obtain ⟨missing', -, hpart'⟩ := h.part'.exists_isWithout
  have hflat : c.bindings.IsFlat p.solved :=
    isFlat_solved hnamedBy h.nodup_xs (fun x hx => h.xs_perm.mem_iff.mp hx) h.solved hshown.flat
  have hflat' : (c.without left).bindings.IsFlat part' :=
    hpart'.isFlat ⟨hflat.nodup, hflat.named, hflat.leaves⟩
  have hfree : ∀ z v, (z ∈ namesOf named → Table.get? c.memory z = none ∧
      ((c.without left).memory.Reaches e z ∨ z ∈ e.needs)) →
      (Table.get? part' z).or (Table.get? (c.without left).memory z) = some v →
      (Table.get? part z).or (Table.get? c.memory z) = some v := by
    intro z v hz hv
    refine h.get?_of_solved (fun hmem => ?_) hv
    obtain ⟨hnone, hz⟩ := hz hmem
    exact ⟨hnone, h.get?_part_of_dependsOn hshown hw he hmem hnone hz⟩
  refine ⟨fun z v hz hv => ?_, fun z hz hhas => ?_⟩
  · rw [get?_opened_ofNames hflat'] at hv
    rw [get?_opened_ofNames (hpart.isFlat hflat)]
    by_cases hmem : z ∈ namesOf named
    · have hreach := reaches_of_opened hflat' (fun y v tree =>
        not_mem_of_get?_solved hshown h.nodup_xs h.xs_perm h.solved hpart') hz hmem
      -- the name has a plain value, or none, or one that stands aside
      rcases hbound : boundValue? c.memory z with - | u
      · rcases hhas : Table.has c.memory z with - | -
        · have hnone : Table.get? c.memory z = none := by simpa [Table.has] using hhas
          exact hfree z v (fun _ => ⟨hnone, .inl hreach⟩) hv
        · obtain ⟨-, rfl⟩ := hshown.readsNames h.mem hw he hmem (.inl hreach)
          exact h.get?_of_standsAside hmem ⟨hhas, hbound⟩ ⟨e, he, hreach⟩ hv
      · exact get?_of_boundValue?_without hleft h.nodup_xs h.solved hpart hpart' (h.mem_xs hmem)
          hbound hv
    · exact hfree z v (fun hin => absurd hin hmem) hv
  · rw [Table.has, get?_opened_ofNames hflat'] at hhas
    rw [Table.has, get?_opened_ofNames (hpart.isFlat hflat)]
    obtain ⟨v, hv⟩ := Option.isSome_iff_exists.mp hhas
    rcases hget : Table.get? c.memory z with - | u
    · rw [← hget, hfree z v (fun _ => ⟨hget, .inr hz⟩) hv, Option.isSome_some]
    · simp

end MeetAt

/-! ### Solving with the names bound -/

/-- The equations with the names bound have the solution that those without them have. -/
theorem exists_solveBy_of_without (hleft : ∀ y, left y = true → StandsAside c.memory y)
    (hshown : IsShown setting (c.without left) named p) (hnamedBy : AreNamedBy c.bindings named)
    (hnodup : (namesOf named).Nodup) (hxs : xs.Perm named) (hys : ys.Perm named)
    (hsolve : solveBy ((c.without left).equations library setting step calls .strict) .none xs =
      .ok p)
    (halike : AreAlike setting left c named (namesOf ys) (namesOf xs)) :
    ∃ p', solveBy (c.equations library setting step calls .strict) .none ys = .ok p' ∧
      ∀ x ∈ named, Table.get? p'.results x.name = Table.get? p.results x.name := by
  refine exists_solveBy_of_isBefore hnodup hxs hys hsolve fun x part' part o hpart' hpart ho => ?_
  rcases hbound : boundValue? c.memory x.name with - | v
  · obtain ⟨houtcome, hmarked⟩ :=
      outcome_of_equations_strict (by rwa [boundValue?_without hleft]) ho
    have hmeet : MeetAt library setting step calls left c named xs ys p x part part' :=
      ⟨hnodup, hxs, hys, hsolve, halike, hpart, hpart'⟩
    have hkept := outcome_mono (treeOf_without left c).symm
      (fun w hw e he => hmeet.isKeptOn hleft hshown hnamedBy hw he) houtcome
    rw [equations, hbound]
    simp only [hkept, ← hmarked]
  · -- the name has a plain value on both calculators
    rw [equations, boundValue?_without hleft, hbound] at ho
    rw [equations, hbound]
    exact ho

end

/-- **An expression takes precedence over a formula of its name**: if a strict solve returns on a
calculator without some bindings that stand aside for expressions, it returns the same with them,
if the graph shows all that the expressions come to and the orders of the two solves are alike. -/
theorem exists_run_solve_of_without (hlibrary : ∀ key r, library key = some r → r.IsPassive)
    {e e' : Ensemble} (hfresh : e.holdsCallFrom e.calls = false) {expressions w : Value}
    (hleft : ∀ y, left y = true → StandsAside (e.calculator n).memory y)
    (h : (solve library setting n .strict expressions).run
      (e.put n ((e.calculator n).without left)) = (.ok w, e')) :
    ∃ named p e₁, (solveFlat library setting n .strict expressions).run
        (e.put n ((e.calculator n).without left)) = (.ok (named, p), e₁) ∧
      (IsShown setting ((e.calculator n).without left) named p →
        (∃ order other, AreAlike setting left (e.calculator n) named order other) →
        ∃ e'', (solve library setting n .strict expressions).run e = (.ok w, e'')) := by
  obtain ⟨named, p, e₁, hrun⟩ := exists_run_solveFlat_of_run_solve h
  refine ⟨named, p, e₁, hrun, fun hshown ⟨order, other, halike⟩ => ?_⟩
  have hfresh' : (e.put n ((e.calculator n).without left)).holdsCallFrom e.calls = false :=
    holdsCallFrom_put hfresh (holdsCallFrom_without (holdsCallFrom_calculator hfresh n))
  obtain ⟨xs, hnamed, hxs, horder, hsolve, -, hlearnt⟩ := solveBy_of_run_solveFlat hrun
    (fun xs _ => isPassiveRun_of_isPassive hlibrary xs) (.inl hfresh')
  rw [calculator_put_self] at hnamed horder hsolve
  obtain rfl : other = namesOf xs := Except.ok.inj (halike.found'.symm.trans horder)
  have hnamed' : namedExpressions (e.calculator n).bindings expressions = .ok (named, none) := by
    rw [← hnamed, namedExpressions_without]
  obtain ⟨hnodup, hnamedBy⟩ := namesOf_namedExpressions hnamed'
  have hagain : ∀ ys, ys.Perm named →
      ((solveOrder setting named none).run (e.calculator n)).1 = .ok (namesOf ys) → ∃ p',
        solveBy ((e.calculator n).equations library setting e.step e.calls .strict) .none ys =
          .ok p' ∧ ∀ x ∈ named, Table.get? p'.results x.name = Table.get? p.results x.name := by
    intro ys hys hysorder
    obtain rfl : order = namesOf ys := Except.ok.inj (halike.found.symm.trans hysorder)
    exact exists_solveBy_of_without hleft hshown hnamedBy hnodup hxs hys hsolve halike
  obtain ⟨p', e₂, hrun', hlearnt', hsame⟩ := exists_run_solveFlat hnamed'
    (ordersFor_of_run_solveOrder hnodup (Prod.ext halike.found rfl)).1
    (fun ys _ => isPassiveRun_of_isPassive hlibrary ys) (.inl hfresh) hagain
  have hresults : resultsByKey named p' = resultsByKey named p :=
    List.filterMap_congr fun x hx => by rw [hsame x hx]
  -- the results are nested in the same way
  have hw := run_solve_of_run_solveFlat hrun rfl
  have hw' := run_solve_of_run_solveFlat hrun' rfl
  rw [hresults, hlearnt'.step] at hw'
  rw [h, calculator_put_self, hlearnt.step] at hw
  exact ⟨_, by rw [hw', Except.ok.inj (Prod.mk.inj hw).1]; rfl⟩

/-- Two expressions: `a`, which has a formula besides, and one that reads it. -/
def precedent : List Named := [⟨"a", .text "a", .text "2"⟩, ⟨"b", .text "b", .text "a + 1"⟩]

/-- An ensemble of one calculator, in which `a` is bound to a formula. -/
def overlaid : Ensemble := Ensemble.empty.put 0 (.usual .empty [("a", .node (.literal (.int 5)))])

theorem run_solve_precedent : ((solve (fun _ => none) (.initial .empty) 0 .strict
    (.map (precedent.map fun x => (x.key, x.expression)))).run
      (overlaid.put 0 ((overlaid.calculator 0).without (· == "a")))).1 =
    .ok (.map [(.text "a", .int 2), (.text "b", .int 3)]) := by
  rw [overlaid, Calculator.usual_eq, Setting.initial_eq]
  cbv

theorem run_solveFlat_precedent : ((solveFlat (fun _ => none) (.initial .empty) 0 .strict
    (.map (precedent.map fun x => (x.key, x.expression)))).run
      (overlaid.put 0 ((overlaid.calculator 0).without (· == "a")))).1 =
    .ok (precedent, ⟨[("a", .int 2), ("b", .int 3)], [("a", .int 2), ("b", .int 3)]⟩) := by
  rw [overlaid, Calculator.usual_eq, Setting.initial_eq]
  cbv

/-- The orders agree: `a` comes first in both. -/
theorem areAlike_precedent : AreAlike (.initial .empty) (· == "a") (overlaid.calculator 0) precedent
    ["a", "b"] ["a", "b"] := by
  rw [overlaid, Calculator.usual_eq, Setting.initial_eq]
  exact ⟨by cbv, by cbv, fun _ _ _ _ _ _ h => h, fun _ _ _ _ _ _ _ h => h⟩

/-- Listed in this order, the two expressions have the results that they have without the formula.
-/
theorem exists_run_solve_precedent :
    ∃ e'', (solve (fun _ => none) (.initial .empty) 0 .strict
        (.map (precedent.map fun x => (x.key, x.expression)))).run overlaid =
      (.ok (.map [(.text "a", .int 2), (.text "b", .int 3)]), e'') := by
  have haside : ∀ y, (y == "a") = true → StandsAside (overlaid.calculator 0).memory y := by
    intro y hy
    obtain rfl := eq_of_beq hy
    exact ⟨rfl, rfl⟩
  obtain ⟨named, p, e₁, hp, hsame⟩ := exists_run_solve_of_without (fun key r h => by cases h)
    rfl haside (Prod.ext run_solve_precedent rfl)
  have hflat := run_solveFlat_precedent
  rw [hp] at hflat
  obtain ⟨rfl, rfl⟩ := Prod.mk.inj (Except.ok.inj hflat)
  refine hsame (isShown_of_results ?_ ?_) ⟨_, _, areAlike_precedent⟩
  · simp [precedent, Value.singles]
  · intro x hx v hv
    have hmem := Table.mem_of_get? hv
    simp only [List.mem_cons, Prod.mk.injEq, List.not_mem_nil, or_false] at hmem
    rcases hmem with ⟨-, rfl⟩ | ⟨-, rfl⟩
    all_goals exact ⟨rfl, rfl⟩

end Ensemble

end Formulary
