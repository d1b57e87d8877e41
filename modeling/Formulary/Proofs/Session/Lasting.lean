import Formulary.Proofs.Cache
import Formulary.Proofs.Calculator.Coupling
import Formulary.Proofs.Table
import Formulary.Proofs.Session.Later
import Formulary.Session.Calculator

/-!
# Properties of a calculator that last

A property of a calculator lasts if it survives what steps of a session may do to calculators: other
bindings, a text parsed into the cache, texts forgotten, writes into objects, and functions
registered under names that the property spares (`Calculator.IsLasting`). It is enough to look at
these one by one; that a whole session preserves a lasting property of one of its calculators
(`CalculatorSession.preserves_houses`) is shown once, for all requests and openings.

Evaluations and bulk solves reach a calculator through calls of routines from anywhere, so they are
dealt with by coupling them with themselves (`Ensemble.coupling_houses`).
-/

namespace Formulary

theorem Registry.name_of_functionOf {name returnType : String} {offered : Option OfferedBody}
    {f : Function} (h : functionOf name returnType offered = .ok f) :
    f.name = Text.upperCase name := by
  unfold functionOf at h
  split at h
  · cases h
  · cases h
  · cases h
    rfl

/-! ### Lasting properties -/

namespace Calculator

/-- Whether a property of a calculator under a setting lasts as long as functions are registered
under spared names only. -/
structure IsLasting (spared : String → Prop) (Q : Setting → Calculator → Prop) : Prop where
  setting : ∀ {setting setting' c}, Q setting c → setting'.defaults = setting.defaults →
    setting'.sheet = setting.sheet → Q setting' c
  rebound : ∀ {setting c} {b : Bindings} (detached : Option Memory), Q setting c →
    b.caseSensitive = c.bindings.caseSensitive →
      Q setting { c with bindings := b, detached := detached }
  put : ∀ {setting c s e}, Q setting c → c.parse setting s = .ok e →
    Q setting { c with cache := c.cache.put setting.caching s (.node e) }
  forget : ∀ {setting c}, Q setting c → ∀ forgets,
    Q setting { c with cache := c.cache.forget forgets }
  suspended : ∀ {setting c}, Q setting c → ∀ suspended,
    Q setting { c with cache := { c.cache with suspended := suspended } }
  receiveAll : ∀ {setting c}, Q setting c → ∀ writes, Q setting (c.receiveAll writes)
  registered : ∀ {setting c} {f : Function}, Q setting c → spared f.name →
    Q setting { c with registry := c.registry.add f }
  registeredByDefault : ∀ {setting c} {f : Function}, Q setting c → spared f.name →
    Q { setting with defaults := setting.defaults.add f } c

namespace IsLasting

variable {spared : String → Prop} {Q : Setting → Calculator → Prop} {setting : Setting}
  {c : Calculator}

/-- Other bindings for a while or for good, what is read staying as it is. -/
theorem bind (hQ : IsLasting spared Q) {b : Bindings} (hc : Q setting c)
    (hcase : b.caseSensitive = c.bindings.caseSensitive) : Q setting { c with bindings := b } :=
  hQ.rebound c.detached hc hcase

theorem store (hQ : IsLasting spared Q) {key : Value} {value : Option Value} {b : Bindings}
    (hc : Q setting c) (h : c.bindings.store key value = .ok b) :
    Q setting { c with bindings := b } := by
  refine hQ.bind hc ?_
  unfold Bindings.store at h
  split at h
  · cases h
    rfl
  · cases h
    rfl
  · cases h

theorem resolveAnew (hQ : IsLasting spared Q) (hc : Q setting c) (expression : Value) :
    Q setting ((resolveAnew setting expression).run c).2 :=
  snd_run_resolveAnew hQ.put hc expression

theorem resolve (hQ : IsLasting spared Q) (hc : Q setting c) (expression : Value) :
    Q setting ((resolve setting expression).run c).2 :=
  snd_run_resolve hQ.put hc expression

end IsLasting

end Calculator

/-! ### Ensembles -/

namespace Ensemble

variable {spared : String → Prop} {Q : Setting → Calculator → Prop} {setting : Setting}
  {e : Ensemble} {n : Nat}

/-- Whether an ensemble has a calculator of a number. Calculators are numbered from zero on. -/
structure Has (n : Nat) (e : Ensemble) : Prop where
  has : Table.has e.calculators n = true
  lt : n < e.calculators.length

theorem Has.put (he : e.Has n) (m : Nat) (c : Calculator) : (e.put m c).Has n where
  has := by
    rw [Ensemble.put, Table.has_insert, he.has, Bool.or_true]
  lt := Nat.lt_of_lt_of_le he.lt (Table.length_le_length_insert _ _ _)

/-- Whether an ensemble has a calculator of a number, with a property under a setting. -/
structure Houses (setting : Setting) (Q : Setting → Calculator → Prop) (n : Nat) (e : Ensemble) :
    Prop extends Has n e where
  property : Q setting (e.calculator n)

namespace Houses

theorem put (he : e.Houses setting Q n) {m : Nat} {c : Calculator} (hc : m = n → Q setting c) :
    (e.put m c).Houses setting Q n where
  toHas := he.toHas.put m c
  property := by
    rw [calculator_put]
    split
    · next hm => exact hc hm
    · exact he.property

theorem receiveAll (hQ : Calculator.IsLasting spared Q) (he : e.Houses setting Q n)
    (writes : List ObjectWrite) : (e.receiveAll writes).Houses setting Q n where
  has := by
    rw [Ensemble.receiveAll, Table.has, Table.get?_mapValues, Option.isSome_map]
    exact he.has
  lt := by
    rw [Ensemble.receiveAll, List.length_map]
    exact he.lt
  property := by
    rw [calculator_receiveAll]
    exact hQ.receiveAll he.property writes

/-- A computation on one calculator that keeps the property of it. -/
theorem onOne (he : e.Houses setting Q n) {α : Type} (run : Calculator.Run α) {m : Nat}
    (hrun : ∀ c, m = n → Q setting c → Q setting (run.run c).2) :
    ((onOne m run).run e).2.Houses setting Q n := by
  refine he.put fun hm => hrun _ hm ?_
  rw [hm]
  exact he.property

end Houses

/-- A lasting property of a calculator goes on over all steps of all evaluations. -/
theorem coupling_houses (hQ : Calculator.IsLasting spared Q) (setting : Setting) (n : Nat) :
    Coupling (fun _ => True) setting setting (fun e e' => e' = e ∧ e.Houses setting Q n) := by
  refine coupling_of_invariant (fun he _ _ => ⟨⟨he.has, he.lt⟩, he.property⟩)
    (fun he m b detached hcase _ => he.put ?_) (fun he m forgets => he.put ?_)
    fun he m expression => he.onOne _ fun c _ hc => hQ.resolve hc expression
  · rintro rfl
    exact hQ.rebound detached he.property hcase
  · rintro rfl
    exact hQ.forget he.property forgets

end Ensemble

namespace CalculatorSession

open Ensemble (Houses coupling_houses)

variable {spared : String → Prop} {Q : Setting → Calculator → Prop} {setting : Setting}

/-! ### Requests -/

/-- Whether a command makes no new calculator of a name, and registers functions on the one that has
it, and by default, under spared names only. -/
def Command.Spares (name : String) (spared : String → Prop) (s : State) (command : Command) : Prop :=
  match command.request with
  | .new _ => command.calculator ≠ name
  | .addFunctions functions => s.number command.calculator = s.number name →
    ∀ f ∈ functions, spared (Text.upperCase f.1)
  | .addDefaultFunction other _ _ => spared (Text.upperCase other)
  | _ => True

section

variable (hQ : Calculator.IsLasting spared Q)
include hQ

theorem lasting_resolved {c : Calculator} (hc : Q setting c) (expression : Value) :
    Q setting ((resolved setting expression).run c).2 := by
  rw [resolved, Stateful.run_bind, Stateful.run_get]
  simp only
  split
  · exact hc
  · exact hc
  · exact Stateful.snd_run_bind (hQ.resolveAnew hc expression) fun _ _ hread => hread

theorem lasting_sameTree {c : Calculator} (hc : Q setting c) (expression : Value)
    (other : Option Value) : Q setting ((sameTree setting expression other).run c).2 := by
  rw [sameTree]
  refine Stateful.snd_run_bind (lasting_resolved hQ hc expression) fun v c₁ hfirst => ?_
  exact Stateful.snd_run_bind (lasting_resolved hQ hfirst _) fun _ _ hsecond => hsecond

theorem lasting_addFunctions (library : Library) {functions : List (String × String × String)}
    (hspared : ∀ f ∈ functions, spared (Text.upperCase f.1)) {c : Calculator} (hc : Q setting c) :
    Q setting ((addFunctions library functions).run c).2 := by
  induction functions generalizing c with
  | nil => exact hc
  | cons first rest ih =>
    obtain ⟨name, returnType, body⟩ := first
    simp only [addFunctions, Stateful.run_bind, Stateful.run_get, Stateful.run_ofExcept,
      Calculator.addFunction]
    rcases hf : Registry.functionOf name returnType (library.offered body none) with fault | f
    · exact hc
    · refine ih (fun g hg => hspared g (List.mem_cons_of_mem _ hg)) (hQ.registered hc ?_)
      rw [Registry.name_of_functionOf hf]
      exact hspared (name, returnType, body) List.mem_cons_self

variable {e : Ensemble} {n : Nat} (he : e.Houses setting Q n)
include he

omit hQ in
theorem houses_answeringTrue {run : Calculator.Run Unit} {m : Nat}
    (hrun : ∀ c, m = n → Q setting c → Q setting (run.run c).2) :
    ((answeringTrue m run).run e).2.Houses setting Q n := by
  have hanswers : ∀ c, m = n → Q setting c →
      Q setting ((do run; return .bool true : Calculator.Run Value).run c).2 :=
    fun c hm hc => Stateful.snd_run_bind (hrun c hm hc) fun _ _ hafter => hafter
  exact he.onOne _ hanswers

/-- A lasting property survives every request. -/
theorem houses_computation (library : Library) {request : Request} {m : Nat}
    (hspares : ∀ functions, request = .addFunctions functions → m = n →
      ∀ f ∈ functions, spared (Text.upperCase f.1)) :
    ((computation library setting m request).run e).2.Houses setting Q n := by
  have hcoupling := coupling_houses hQ setting n
  have hlibrary := library.evaluatesOnly_of_forall fun _ => trivial
  -- evaluations and solves come back to the calculators through calls, so each is coupled with
  -- itself; all other requests are computations on one calculator
  have hafter : ∀ {α : Type} {run : Ensemble.Run α},
      Couples (fun e e' => e' = e ∧ e.Houses setting Q n) run run →
        (run.run e).2.Houses setting Q n := fun h => h.of_invariant he
  cases request with
  | evaluate expression data handler =>
    exact hafter (hcoupling.evaluate hlibrary (fun _ _ _ _ => trivial) m handler data)
  | evaluateStrict expression data =>
    exact hafter (hcoupling.evaluateStrict hlibrary (fun _ _ _ _ => trivial) m data)
  | dependencies expression data =>
    exact hafter ((hcoupling.onOne m).bind
      (hcoupling.dependencies (fun _ => trivial) m data expression) fun names =>
        (hcoupling.onOne m).pure _)
  | solve expressions answers =>
    refine Couples.of_invariant (hcoupling.solve (fun _ => trivial)
      (Ensemble.couples_quiet answers) ?_ m expressions) he
    rintro e e' ⟨rfl, he⟩ writes
    exact ⟨rfl, he.receiveAll hQ writes⟩
  | resolve expression =>
    exact he.onOne (resolved setting expression) fun c _ hc => lasting_resolved hQ hc expression
  | sameTree expression other =>
    exact he.onOne (sameTree setting expression other) fun c _ hc =>
      lasting_sameTree hQ hc expression other
  | store writing =>
    refine houses_answeringTrue he fun c _ hc => ?_
    simp only [Stateful.run_bind, Stateful.run_get, Stateful.run_ofExcept]
    rcases hb : c.bindings.store writing.key writing.value with fault | b
    · exact hc
    · exact hQ.store hc hb
  | storeFormula key formula =>
    refine houses_answeringTrue he fun c _ hc => ?_
    exact Stateful.snd_run_bind (lasting_resolved hQ hc formula) fun _ _ hread => hQ.bind hread rfl
  | clear =>
    refine houses_answeringTrue he fun c _ hc => ?_
    exact hQ.bind (b := c.bindings.clear) hc rfl
  | isEmpty =>
    have hkeeps : ∀ c, m = n → Q setting c →
        Q setting ((do return .bool (← get).memory.isEmpty : Calculator.Run Value).run c).2 :=
      fun c _ hc => hc
    exact he.onOne _ hkeeps
  | clearCache request =>
    refine houses_answeringTrue he fun c _ hc => ?_
    rw [Stateful.run_bind, Stateful.run_ofExcept]
    rcases CachePattern.ofRequest request with fault | p
    · exact hc
    · simp only [Stateful.run_bind, Stateful.run_get, Stateful.run_ofExcept]
      rcases hcache : c.cache.invalidate p with fault | cache
      · exact hc
      · obtain ⟨-, rfl⟩ := Cache.invalidate_eq_ok_iff.mp hcache
        exact hQ.forget hc p.takes
  | addFunctions functions =>
    exact houses_answeringTrue he fun c hm hc =>
      lasting_addFunctions hQ library (hspares functions rfl hm) hc
  | hasFunction other =>
    have hkeeps : ∀ c, m = n → Q setting c → Q setting ((do
        return .bool (Registry.find? ((← get).chain setting) other).isSome :
          Calculator.Run Value).run c).2 := fun c _ hc => hc
    exact he.onOne _ hkeeps
  | new | addDefaultFunction | setDefaultAliases | turnCaching => exact he

end

/-! ### Sessions -/

/-- Whether the calculator of a name has a property. -/
def State.Houses (Q : Setting → Calculator → Prop) (name : String) (s : State) : Prop :=
  s.ensemble.Houses s.setting Q (s.number name)

theorem State.Houses.act (hQ : Calculator.IsLasting spared Q) {library : Library} {name : String}
    {command : Command} {s : State} (hspares : command.Spares name spared s)
    (hs : s.Houses Q name) : (act library command s).2.Houses Q name := by
  have hnext : (nextStep s (computation library s.setting (s.number command.calculator)
      command.request)).2.Houses Q name :=
    houses_computation hQ (e := { s.ensemble with step := s.ensemble.step + 1, calls := 0 })
      ⟨⟨hs.has, hs.lt⟩, hs.property⟩ library fun functions hfunctions => by
        rw [Command.Spares, hfunctions] at hspares
        exact hspares
  obtain ⟨calculator, request⟩ := command
  cases request with
  | new plan =>
    -- the new calculator gets the next number and another name
    have hnumber : (s.withNew calculator plan).number name = s.number name := by
      have hother : calculator ≠ name := hspares
      rw [State.number, State.withNew, Table.get?_insert, if_neg (by simpa using hother)]
      rfl
    show Ensemble.Houses s.setting Q ((s.withNew calculator plan).number name) _
    rw [hnumber]
    exact Ensemble.Houses.put hs fun hm => absurd hs.lt (by omega)
  | addDefaultFunction other returnType body =>
    simp only [CalculatorSession.act]
    rcases hf : Registry.functionOf other returnType
      (library.offered body (some (s.number calculator))) with fault | f
    · exact hs
    · refine ⟨hs.toHas, hQ.registeredByDefault hs.property ?_⟩
      rw [Registry.name_of_functionOf hf]
      exact hspares
  | setDefaultAliases pairs => exact ⟨hs.toHas, hQ.setting hs.property rfl rfl⟩
  | turnCaching value => exact ⟨hs.toHas, hQ.setting hs.property rfl rfl⟩
  | _ => exact hnext

theorem State.Houses.enter (hQ : Calculator.IsLasting spared Q) {kind : Opening.Kind}
    {setting : Setting} {c inside : Calculator} (hc : Q setting c)
    (h : enterOn kind c = .ok inside) : Q setting inside := by
  cases kind with
  | scope writing =>
    obtain ⟨b, hb, h⟩ := Except.bind_eq_ok_iff.mp h
    cases h
    exact hQ.store hc hb
  | suspendCache =>
    cases h
    exact hQ.suspended hc true

/-- **Sessions preserve the lasting properties of a calculator**, as long as they register functions
under spared names only and make no new calculator of its name. -/
theorem preserves_houses (library : Library) (hQ : Calculator.IsLasting spared Q) (name : String) :
    Session.Preserves (State.Houses Q name) (Command.Spares name spared) (session library) where
  act hs hspares := hs.act hQ hspares
  enter := by
    rintro ⟨calculator, kind⟩ s inside hs h
    simp only [session] at h
    rcases hc : enterOn kind (s.ensemble.calculator (s.number calculator)) with fault | c
    · rw [hc] at h
      cases h
    · rw [hc] at h
      cases h
      refine Ensemble.Houses.put hs fun hm => ?_
      rw [hm] at hc
      exact State.Houses.enter hQ hs.property hc
  leave := by
    rintro ⟨calculator, kind⟩ before inside hinside
    refine Ensemble.Houses.put hinside fun hm => ?_
    have hproperty : Q inside.setting (inside.ensemble.calculator (before.number calculator)) := by
      rw [hm]
      exact hinside.property
    cases kind with
    | scope writing => exact hQ.bind hproperty rfl
    | suspendCache => exact hQ.suspended hproperty _

/-- Whether a state has a calculator of a name. -/
def State.Has (s : State) (name : String) : Prop := s.ensemble.Has (s.number name)

/-- A name keeps its calculator until it is given to a new one. -/
theorem State.Has.of_follows {library : Library} {name : String} {s after : State} (hs : s.Has name)
    (hafter : (session library).Follows (Command.Spares name fun _ => True) s after) :
    after.Has name := by
  have hlasting : Calculator.IsLasting (fun _ => True) fun _ _ => True := {
    setting := fun _ _ _ => trivial
    rebound := fun _ _ _ => trivial
    put := fun _ _ => trivial
    forget := fun _ _ => trivial
    suspended := fun _ _ => trivial
    receiveAll := fun _ _ => trivial
    registered := fun _ _ => trivial
    registeredByDefault := fun _ _ => trivial }
  have hhouses : s.Houses (fun _ _ => True) name := ⟨hs, trivial⟩
  exact ((preserves_houses library hlasting name).of_follows hafter hhouses).toHas

end CalculatorSession

end Formulary
