import Formulary.Proofs.Calculator.Solver
import Formulary.Proofs.Expr.Parser
import Formulary.Proofs.Function.Failures

/-!
# Calculators with functions of their own only

On a calculator whose functions, bound formulas and cached trees run no routine of a library
(`Function.IsOwn`), no evaluation ever calls one: what is solved on the way calls no function that
was not called before. So a solve neither acts on a calculator nor counts a call
(`isPassiveRun_of_callsOnly`, `isQuietRun_of_callsOnly`), and if it returns it has solved its
equations (`solveBy_of_callsOnly`).
-/

namespace Formulary

/-! ### Functions without routines -/

/-- Whether a function is one of the calculator's own: no routine of a library stands behind it, and
if the spreadsheet library does, it computes as a builtin does, giving inert values and failing for
reasons that lie in its arguments. -/
structure Function.IsOwn (library : Library) (sheet : Sheet) (f : Function) : Prop where
  routine : ∀ key target, f.body = .routine key target → library key = none
  isInert : ∀ name, f.body = .sheet name → sheet.IsInert name
  failsOnly : ∀ name, f.body = .sheet name → sheet.FailsOnly (·.kind.isOfValues = true) name

namespace Function

variable {library : Library} {sheet : Sheet} {f : Function}

theorem isOwn_builtin (b : Builtin) : b.function.IsOwn library sheet where
  routine := nofun
  isInert := nofun
  failsOnly := nofun

theorem IsOwn.isPassive (h : f.IsOwn library sheet) : f.IsPassive library := by
  intro key target r hbody hr
  rw [h.routine key target hbody] at hr
  cases hr

/-- What such a function gives is the result of no call, and inert. -/
theorem IsOwn.exists_counted (h : f.IsOwn library sheet) (step : Nat) (args : List Value) :
    ∃ result : Except Error Value, f.counted library sheet step args = MonadExcept.ofExcept result ∧
      ∀ v, result = .ok v → v.IsInert := by
  rcases hbody : f.body with b | name | ⟨key, target⟩
  · refine ⟨f.applyPure sheet args, ?_, fun v hv => isInert_applyPure h.isInert hv⟩
    simp [counted, hbody]
  · refine ⟨f.applyPure sheet args, ?_, fun v hv => isInert_applyPure h.isInert hv⟩
    simp [counted, hbody]
  · refine ⟨.error .wrongType, ?_, fun v hv => by cases hv⟩
    rw [counted, hbody]
    simp only [h.routine key target hbody]
    split
    · rfl
    · rfl

end Function

/-! ### Marking and flattening -/

section

variable (origin : Origin)

mutual

theorem Value.functions_identifyFrom : ∀ (v : Value) (place : Nat),
    (v.identifyFrom origin place).1.functions = v.functions
  | .map entries, place => by
    simp only [identifyFrom, functions]
    exact entriesFunctions_identifyEntries entries place
  | .list _, _ | .tuple _, _ | .node _, _ | .cell .., _ => by
    simp [identifyFrom, functions, isObject]
  | .float _, _ | .complex _, _ => by
    simp only [identifyFrom]
    split
    · simp [functions]
    · rfl
  | .none, _ | .bool _, _ | .int _, _ | .text _, _ | .symbol _, _ | .undefined, _
  | .object .., _ => by
    simp [identifyFrom, isObject]

theorem Value.entriesFunctions_identifyEntries : ∀ (entries : List (Value × Value)) (place : Nat),
    Value.entriesFunctions (identifyEntries origin place entries).1 =
      Value.entriesFunctions entries
  | [], _ => by simp [identifyEntries]
  | (k, v) :: rest, place => by
    simp only [identifyEntries, entriesFunctions]
    rw [functions_identifyFrom v, entriesFunctions_identifyEntries rest]

end

end

theorem Value.functions_identified (origin : Origin) (v : Value) :
    (v.identified origin).functions = v.functions :=
  functions_identifyFrom origin v 0

mutual

theorem Mapping.functions_of_mem_leavesAt : ∀ (v : Value) (path : List Value),
    ∀ leaf ∈ v.leavesAt path, leaf.2.functions ⊆ v.functions
  | .map entries, path => by
    rw [Value.leavesAt, Value.functions]
    exact functions_of_mem_entriesLeaves entries path
  | .object identity content, path => by
    rw [Value.leavesAt]
    split
    · rw [Value.functions]
      exact functions_of_mem_leavesAt content path
    · intro leaf hleaf
      rw [List.mem_singleton] at hleaf
      subst hleaf
      exact fun _ h => h
  | .none, _ | .bool _, _ | .int _, _ | .float _, _ | .complex _, _ | .text _, _ | .list _, _
  | .tuple _, _ | .symbol _, _ | .undefined, _ | .node _, _ | .cell .., _ => by
    intro leaf hleaf
    simp only [Value.leavesAt, List.mem_singleton] at hleaf
    subst hleaf
    exact fun _ h => h

theorem Mapping.functions_of_mem_entriesLeaves : ∀ (entries : List (Value × Value))
    (path : List Value), ∀ leaf ∈ leavesAt path entries,
      leaf.2.functions ⊆ Value.entriesFunctions entries
  | [], _ => by simp [leavesAt]
  | (k, v) :: rest, path => by
    intro leaf hleaf
    rw [leavesAt, List.mem_append] at hleaf
    rw [Value.entriesFunctions]
    rcases hleaf with hleaf | hleaf
    · exact fun f hf => List.mem_append_left _
        (functions_of_mem_leavesAt v (path ++ [k]) leaf hleaf hf)
    · exact fun f hf => List.mem_append_right _
        (functions_of_mem_entriesLeaves rest path leaf hleaf hf)

end

theorem Value.mem_entriesFunctions {entries : List (Value × Value)} {f : Function} :
    f ∈ Value.entriesFunctions entries ↔ ∃ entry ∈ entries, f ∈ entry.2.functions := by
  induction entries with
  | nil => simp [entriesFunctions]
  | cons entry rest ih => simp [entriesFunctions, ih]

/-- What a mapping writes calls functions that its values call. -/
theorem Bindings.functions_of_mem_entriesOf {b : Bindings} {data : Mapping}
    {entry : String × Value} (h : entry ∈ b.entriesOf data) {f : Function}
    (hf : f ∈ entry.2.functions) : ∃ given ∈ data, f ∈ given.2.functions := by
  rw [entriesOf] at h
  obtain ⟨written, hw, rfl⟩ := List.mem_map.mp h
  rw [← Value.mem_entriesFunctions]
  rcases hi : b.ignoreNested with - | -
  · rw [hi] at hw
    rcases Table.mem_insertAll hw with hw | ⟨leaf, hleaf, heq⟩
    · cases hw
    · obtain ⟨given, hgiven, rfl⟩ := List.mem_map.mp hleaf
      rw [heq] at hf
      exact Mapping.functions_of_mem_entriesLeaves data [] given hgiven hf
  · rw [hi] at hw
    exact Value.mem_entriesFunctions.mpr ⟨written, hw, hf⟩

namespace Calculator

/-! ### What a calculator can come to call -/

/-- Whether a calculator knows good functions only, and what it binds and has cached calls no
others. -/
structure CallsOnly (setting : Setting) (Good : Function → Prop) (c : Calculator) : Prop where
  known : ∀ name f, c.function? setting name = some f → Good f
  bound : ∀ entry ∈ c.memory, ∀ f ∈ entry.2.functions, Good f
  cached : ∀ entry ∈ c.cache.entries, ∀ f ∈ entry.2.functions, Good f

variable {setting : Setting} {Good : Function → Prop} {c : Calculator}

theorem CallsOnly.attached (h : c.CallsOnly setting Good) : c.attached.CallsOnly setting Good :=
  ⟨h.known, h.bound, h.cached⟩

/-- The tree of an expression calls good functions only. -/
theorem CallsOnly.functions_treeOf (h : c.CallsOnly setting Good) {expression : Value}
    (hexpression : ∀ f ∈ expression.functions, Good f) {e : Expr}
    (he : c.treeOf setting expression = .ok e) : ∀ f ∈ e.functions, Good f := by
  rw [treeOf] at he
  split at he
  · next v hv =>
    split at he
    · next e' hv' =>
      obtain rfl := Except.ok.inj he
      rw [← Value.functions_of_expr? hv']
      have hfound : ∃ s, c.cache.get? s = some v := by
        rw [cached?] at hv
        split at hv
        · cases hv
        · cases hv
        · next w _ hw =>
          obtain rfl := Option.some.inj hv
          obtain ⟨s, -, hs⟩ := Option.bind_eq_some_iff.mp hw
          exact ⟨s, hs⟩
      obtain ⟨s, hs⟩ := hfound
      exact h.cached (s, v) (Table.mem_of_get? hs)
    · cases he
  · rcases hv' : expression.expr? with - | e'
    · rcases hs : expression.text? with - | s
      · rw [hv', hs] at he
        obtain rfl := Except.ok.inj he
        rw [Expr.functions]
        exact hexpression
      · rw [hv', hs] at he
        intro f hf
        obtain ⟨name, hname⟩ := Expr.functions_ofText he f hf
        exact h.known name f hname
    · rw [hv'] at he
      obtain rfl := Except.ok.inj he
      rw [← Value.functions_of_expr? hv']
      exact hexpression

/-- With data bound that calls good functions only, so does what is bound. -/
theorem CallsOnly.functions_opened (h : c.CallsOnly setting Good) {data : Mapping}
    (hdata : ∀ entry ∈ data, ∀ f ∈ entry.2.functions, Good f) {z : String} {v : Value}
    (hv : Table.get? (c.opened data).memory z = some v) : ∀ f ∈ v.functions, Good f := by
  rcases Table.get?_insertAll_or hv with hv | ⟨entry, hentry, -, rfl⟩
  · exact h.bound (z, v) (Table.mem_of_get? hv)
  · intro f hf
    obtain ⟨given, hgiven, hf⟩ := Bindings.functions_of_mem_entriesOf hentry hf
    exact hdata given hgiven f hf

/-! ### Calculators as they are set up -/

theorem isOwn_of_mem_builtins {library : Library} {sheet : Sheet} {entry : String × Function}
    (h : entry ∈ Registry.builtins) : entry.2.IsOwn library sheet := by
  have hadd : ∀ (bs : List Builtin) (registry : Registry),
      (∀ entry ∈ registry, entry.2.IsOwn library sheet) →
      ∀ entry ∈ bs.foldl (fun registry b => Registry.add registry b.function) registry,
        entry.2.IsOwn library sheet := by
    intro bs
    induction bs with
    | nil => exact fun registry hregistry => hregistry
    | cons b bs ih =>
      intro registry hregistry
      refine ih _ fun entry hentry => ?_
      rcases Table.mem_insert hentry with hentry | hentry
      · exact hregistry entry hentry
      · rw [hentry]
        exact Function.isOwn_builtin b
  exact hadd Builtin.all [] (fun entry hentry => by cases hentry) entry h

/-- A calculator without further functions knows the builtins and the functions of the spreadsheet
library. No routine is among them. -/
theorem isOwn_of_function? {library : Library} (hdefaults : setting.defaults = .builtins)
    (hregistry : c.registry = []) (hinert : ∀ name, setting.sheet.IsInert name)
    (hfails : ∀ name, setting.sheet.FailsOnly (·.kind.isOfValues = true) name) {name : String}
    {f : Function} (h : c.function? setting name = some f) : f.IsOwn library setting.sheet := by
  rw [function?, Registry.findOrSheet?] at h
  rcases Option.or_eq_some_iff.mp h with h | ⟨-, h⟩
  · obtain ⟨registry, hmem, hf⟩ := List.exists_of_findSome?_eq_some h
    rw [chain, hregistry, hdefaults] at hmem
    rcases List.mem_cons.mp hmem with rfl | hmem
    · cases hf
    · split at hmem
      · rw [List.mem_singleton.mp hmem] at hf
        exact isOwn_of_mem_builtins (Table.mem_of_get? hf)
      · cases hmem
  · obtain ⟨answer, -, rfl⟩ := Option.map_eq_some_iff.mp h
    exact {
      routine := fun _ _ hbody => by cases hbody
      isInert := fun name _ => hinert name
      failsOnly := fun name _ => hfails name }

theorem callsOnly_usual (library : Library) {memory : Memory}
    (h : ∀ entry ∈ memory, ∀ f ∈ entry.2.functions, f.IsOwn library .empty) :
    (usual .empty memory).CallsOnly (.initial .empty) (Function.IsOwn library .empty) where
  known _ _ := isOwn_of_function? rfl rfl (fun _ _ h => by cases h) fun _ _ h => by cases h
  bound := h
  cached entry hentry := by cases hentry

end Calculator

/-! ### Counting nothing -/

/-- Leaving the state as it is, as a correspondence of a computation with itself. -/
def Correspondence.quiet {σ : Type} : Correspondence (Stateful σ) (Stateful σ) where
  rel x _ := ∀ k, (x.run k).2 = k
  pure _ _ := rfl
  throw _ _ := rfl
  bind := by
    intro α β x _ f _ hx hf k
    exact Stateful.snd_run_bind (P := (· = k)) (hx k) fun a k' hk => (hf a k').trans hk

theorem Function.IsOwn.quiet {library : Library} {sheet : Sheet} {f : Function}
    (h : f.IsOwn library sheet) (step : Nat) (args : List Value) (k : Nat) :
    ((f.counted library sheet step args).run k).2 = k := by
  obtain ⟨result, heq, -⟩ := h.exists_counted step args
  rw [heq, Stateful.run_ofExcept]

theorem Function.IsOwn.yields {library : Library} {sheet : Sheet} {f : Function}
    (h : f.IsOwn library sheet) (Good : Function → Prop) (step : Nat) (args : List Value) :
    Yields Good (f.counted library sheet step args) := by
  obtain ⟨result, heq, hinert⟩ := h.exists_counted step args
  rw [heq]
  exact yields_ofExcept hinert

theorem Expr.quiet_evalWithin {library : Library} {sheet : Sheet} {step : Nat} {memory : Memory}
    (hbound : ∀ z v, Table.get? memory z = some v → ∀ f ∈ v.functions, f.IsOwn library sheet)
    (depth : Nat) {e : Expr} (he : ∀ f ∈ e.functions, f.IsOwn library sheet) (k : Nat) :
    ((e.evalWithin (memory.surroundingsWith (Function.counted library sheet step)) depth).run k).2 =
      k := by
  refine evalWithin_rel Correspondence.quiet
    (memory.surroundingsWith (Function.counted library sheet step))
    (memory.surroundingsWith (Function.counted library sheet step))
    (fun e => ∀ f ∈ e.functions, f.IsOwn library sheet) ?_ ?_
    (fun he f hf args => (he f hf).quiet step args) depth he k
  · intro formula formula' key k
    rw [Memory.evalBy_keyed]
    rfl
  · intro formula formula' e _ hformula name _ k
    rw [Memory.evalBy_identifier]
    rcases hv : Table.get? memory name with - | v
    · rfl
    · refine Correspondence.followed Correspondence.quiet (fun e' he' => hformula e' ?_) k
      rw [← Value.functions_of_expr? he']
      exact hbound name v hv

namespace Calculator

section

variable {setting : Setting} {library : Library} {step : Nat} {c : Calculator} {data : Mapping}

section

variable (hc : c.CallsOnly setting (Function.IsOwn library setting.sheet))
variable (hdata : ∀ entry ∈ data, ∀ f ∈ entry.2.functions, f.IsOwn library setting.sheet)
include hc hdata

theorem quiet_valueOf {expression : Value}
    (hexpression : ∀ f ∈ expression.functions, f.IsOwn library setting.sheet) (k : Nat) :
    ((c.valueOf library setting step data expression).run k).2 = k := by
  rcases he : c.treeOf setting expression with fault | e
  · rw [valueOf_of_error he]
    rfl
  · rw [valueOf_of_ok he]
    split
    · exact Expr.quiet_evalWithin (fun z v hv => hc.functions_opened hdata hv) _
        (hc.functions_treeOf hexpression he) k
    · rfl

theorem yields_valueOf {expression : Value}
    (hexpression : ∀ f ∈ expression.functions, f.IsOwn library setting.sheet) :
    Yields (Function.IsOwn library setting.sheet)
      (c.valueOf library setting step data expression) := by
  rcases he : c.treeOf setting expression with fault | e
  · rw [valueOf_of_error he]
    exact yields_throw _
  · rw [valueOf_of_ok he]
    split
    · exact Expr.yields_evalWithin (fun z v hv => hc.functions_opened hdata hv)
        (fun f args hf => hf.yields _ step args) _ (hc.functions_treeOf hexpression he)
    · exact yields_throw _

theorem quiet_forEach_valueOf {expression : Value}
    (hexpression : ∀ w ∈ expression.singles, ∀ f ∈ w.functions,
      f.IsOwn library setting.sheet) (k : Nat) :
    ((Ensemble.forEach (c.valueOf library setting step data) expression).run k).2 = k :=
  Ensemble.forEach_rel Correspondence.quiet _ (c.valueOf library setting step data) expression
    (fun w hw => quiet_valueOf hc hdata (hexpression w hw)) k

theorem yields_forEach_valueOf {expression : Value}
    (hexpression : ∀ w ∈ expression.singles, ∀ f ∈ w.functions, f.IsOwn library setting.sheet) :
    Yields (Function.IsOwn library setting.sheet)
      (Ensemble.forEach (c.valueOf library setting step data) expression) := by
  cases expression with
  | list items =>
    rw [Ensemble.forEach]
    exact yields_bind fun vs => yields_pure (by simp [Value.functions])
  | tuple items =>
    rw [Ensemble.forEach]
    exact yields_bind fun vs => yields_pure (by simp [Value.functions])
  | _ =>
    simp only [Ensemble.forEach]
    exact yields_valueOf hc hdata (hexpression _ (by simp [Value.singles]))

end

end

/-! ### Solves -/

/-- Whether what has been solved calls a calculator's own functions only. -/
def KnowsNoRoutine (library : Library) (sheet : Sheet) (solved : Table String Value) : Prop :=
  ∀ entry ∈ solved, ∀ f ∈ entry.2.functions, f.IsOwn library sheet

theorem functions_ofNames {Good : Function → Prop} {t : Table String Value}
    (h : ∀ entry ∈ t, ∀ f ∈ entry.2.functions, Good f) :
    ∀ entry ∈ Mapping.ofNames t, ∀ f ∈ entry.2.functions, Good f := by
  intro entry hentry
  obtain ⟨given, hgiven, rfl⟩ := List.mem_map.mp hentry
  exact h given hgiven

section

variable {setting : Setting} {library : Library} {n step calls : Nat} {c : Calculator}
  {answers : Ensemble.Answers} {xs : List Ensemble.Named}
variable (hc : c.CallsOnly setting (Function.IsOwn library setting.sheet))
variable (hxs : ∀ x ∈ xs, ∀ w ∈ x.expression.singles, ∀ f ∈ w.functions,
  f.IsOwn library setting.sheet)
include hc hxs

/-- **An outcome is a value**: nothing is freed, for nothing was counted. -/
theorem outcome_eq {solved : Table String Value} (hs : KnowsNoRoutine library setting.sheet solved)
    {x : Ensemble.Named} (hx : x ∈ xs) (leave : Nat → Nat → Value → Value) :
    c.outcome library setting step calls leave (Mapping.ofNames solved) x.expression =
      ((Ensemble.forEach (c.valueOf library setting step (Mapping.ofNames solved))
        x.expression).run calls).1 := by
  rw [outcome]
  simp only [quiet_forEach_valueOf hc (functions_ofNames hs) (hxs x hx), if_pos]

theorem isQuietRun_of_callsOnly :
    Ensemble.IsQuietRun library setting c step calls xs
      (KnowsNoRoutine library setting.sheet ·.solved) :=
  fun _ x hp hx => quiet_forEach_valueOf hc (functions_ofNames hp) (hxs x hx) calls

/-- What is seen of an outcome was bound before, or is what its expression is worth, marked. -/
theorem functions_seen {solved : Table String Value}
    (hs : KnowsNoRoutine library setting.sheet solved) {x : Ensemble.Named} (hx : x ∈ xs)
    {o : Ensemble.Outcome}
    (ho : c.equations library setting step calls answers x solved = .ok o) {v : Value}
    (hv : o.seen = some v) : ∀ f ∈ v.functions, f.IsOwn library setting.sheet := by
  rcases Ensemble.equations_cases ho with ⟨w, hw, rfl⟩ | ⟨-, ⟨w, hw, rfl⟩ | ⟨fault, w, -, -, -, rfl⟩⟩
  · obtain rfl := Option.some.inj hv
    exact hc.bound (x.name, w) (Table.mem_of_get? (Ensemble.get?_of_boundValue? hw))
  · obtain rfl := Option.some.inj hv
    rw [outcome_eq hc hxs hs hx] at hw
    rw [Value.functions_identified]
    exact yields_forEach_valueOf hc (functions_ofNames hs) (hxs x hx) calls w _ (Prod.ext hw rfl)
  · cases hv

/-- What is solved on the way calls no routine, so each evaluation of the solve is passive. -/
theorem isPassiveRun_of_callsOnly :
    Ensemble.IsPassiveRun library setting n answers c step calls xs
      (KnowsNoRoutine library setting.sheet ·.solved) where
  start := by
    intro entry hentry
    cases hentry
  follows p x hp hx := by
    refine Ensemble.follows_evaluateEach (fun w hw e he f hf => ?_) fun z v hv f hf => ?_
    · exact (hc.functions_treeOf (hxs x hx w hw) he f hf).isPassive
    · exact (hc.functions_opened (functions_ofNames hp) hv f hf).isPassive
  next p x o hp hx ho := by
    intro entry hentry
    rw [Ensemble.Progress.record] at hentry
    rcases hseen : o.seen with - | v
    · rw [hseen] at hentry
      exact hp entry hentry
    · rw [hseen] at hentry
      rcases Table.mem_insert hentry with hentry | hentry
      · exact hp entry hentry
      · rw [hentry]
        exact functions_seen hc hxs hp hx ho hseen

end

end Calculator

namespace Ensemble

/-- **A solve that returns** on a calculator with functions of its own only has solved its equations
in an order, calling no routine, and knows of none afterwards. -/
theorem solveBy_of_callsOnly {library : Library} {setting : Setting} {n : Nat}
    {answers : Answers} {expressions : Value} {e e' : Ensemble} {named : List Named}
    {p : Progress} (hc : (e.calculator n).CallsOnly setting (Function.IsOwn library setting.sheet))
    (hcalls : ∀ x ∈ named, ∀ w ∈ x.expression.singles, ∀ f ∈ w.functions,
      f.IsOwn library setting.sheet)
    (h : (solveFlat library setting n (.quiet answers) expressions).run e = (.ok (named, p), e')) :
    ∃ xs, namedExpressions (e.calculator n).bindings expressions = .ok (named, none) ∧
      xs.Perm named ∧
      ((solveOrder setting named none).run (e.calculator n)).1 = .ok (namesOf xs) ∧
      solveBy ((e.calculator n).equations library setting e.step e.calls answers) .none xs = .ok p ∧
      Calculator.KnowsNoRoutine library setting.sheet p.solved ∧ e'.calls = e.calls ∧
      Learnt setting n e e' := by
  have hxs : ∀ xs : List Named, xs.Perm named → ∀ x ∈ xs, ∀ w ∈ x.expression.singles,
      ∀ f ∈ w.functions, f.IsOwn library setting.sheet :=
    fun xs hperm x hx => hcalls x (hperm.mem_iff.mp hx)
  have hpassive : ∀ xs : List Named, xs.Perm named → IsPassiveRun library setting n answers
      (e.calculator n).attached e.step e.calls xs
        (Calculator.KnowsNoRoutine library setting.sheet ·.solved) :=
    fun xs hperm => Calculator.isPassiveRun_of_callsOnly hc.attached (hxs xs hperm)
  obtain ⟨xs, hnamed, hperm, horder, hsolve, hafter⟩ := solveBy_of_run_solveFlat h hpassive
    (.inr fun xs hperm => Calculator.isQuietRun_of_callsOnly hc (hxs xs hperm))
  exact ⟨xs, hnamed, hperm, horder, hsolve,
    solveBy_induction _ (hpassive xs hperm).next (hpassive xs hperm).start hsolve, hafter⟩

end Ensemble

end Formulary
