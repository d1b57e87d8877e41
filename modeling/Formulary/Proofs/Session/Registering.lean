import Formulary.Function.Samples
import Formulary.Proofs.Calculator.CurrentTexts
import Formulary.Proofs.Session.Lasting

/-!
# Registering functions

Once a function is registered on a calculator, or by default where the calculator does not have the
name itself, the name means this function, in whatever case it is written, until it is registered
anew. A text that is parsed from then on calls it, and so does any text that is current. An
evaluation that comes to current texts only has the outcome that it would have on the calculator
with nothing in its cache (`CalculatorSession.inEffect_of_registers`).

A text that was parsed before, and is still in the cache, goes on calling what its names meant then.
So after a function was registered there may be texts that are not current, but only such as call
it.
-/

namespace Formulary

/-! ### What names mean -/

namespace Registry

theorem find?_of_upperCase {name other : String} (h : Text.upperCase other = Text.upperCase name)
    (chain : List Registry) : find? chain other = find? chain name := by
  rw [find?, find?, h]

theorem findOrSheet?_of_upperCase {name other : String}
    (h : Text.upperCase other = Text.upperCase name) (sheet : Sheet) (chain : List Registry) :
    findOrSheet? sheet chain other = findOrSheet? sheet chain name := by
  rw [findOrSheet?, findOrSheet?, find?_of_upperCase h, h]

/-- A function that is added under another name is not found under this one. -/
theorem find?_add_cons {f : Function} {name : String} (h : f.name ≠ Text.upperCase name)
    (registry : Registry) (chain : List Registry) :
    find? (registry.add f :: chain) name = find? (registry :: chain) name := by
  rw [find?_cons, find?_cons, add, Table.get?_insert, if_neg (by simpa using h)]

theorem find?_add_self (f : Function) {name : String} (h : f.name = Text.upperCase name)
    (registry : Registry) (chain : List Registry) :
    find? (registry.add f :: chain) name = some f := by
  rw [find?_cons, add, Table.get?_insert, if_pos (by simpa using h)]
  rfl

end Registry

namespace Calculator

variable {setting : Setting} {c : Calculator} {name text : String} {f g : Function}
  {lexer : LexerOptions}

/-- Whether a calculator knows a function by a name, itself or by default. -/
def Knows (name : String) (f : Function) (setting : Setting) (c : Calculator) : Prop :=
  Registry.find? (c.chain setting) name = some f

theorem knows_registered (h : f.name = Text.upperCase name) :
    Knows name f setting { c with registry := c.registry.add f } :=
  Registry.find?_add_self f h c.registry _

/-- A function that is registered by default is known where the name is not known otherwise. -/
theorem knows_registeredByDefault (h : f.name = Text.upperCase name) (huses : c.usesDefaults = true)
    (hlocal : Table.get? c.registry (Text.upperCase name) = none) :
    Knows name f { setting with defaults := setting.defaults.add f } c := by
  rw [Knows, chain, Registry.find?_cons, hlocal, huses, if_pos rfl]
  exact Registry.find?_add_self f h setting.defaults []

/-- A name that a function is known by means the function, in whatever case it is written. -/
theorem Knows.function? (h : c.Knows name f setting) {other : String}
    (hother : Text.upperCase other = Text.upperCase name) :
    c.function? setting other = some f := by
  rw [Calculator.function?, Registry.findOrSheet?, Registry.find?_of_upperCase hother, h]
  rfl

theorem find?_chain_registered (h : g.name ≠ Text.upperCase name) :
    Registry.find? (chain setting { c with registry := c.registry.add g }) name =
      Registry.find? (c.chain setting) name :=
  Registry.find?_add_cons h c.registry _

theorem find?_chain_registeredByDefault (h : g.name ≠ Text.upperCase name) :
    Registry.find? (c.chain { setting with defaults := setting.defaults.add g }) name =
      Registry.find? (c.chain setting) name := by
  rw [chain, chain, Registry.find?_cons, Registry.find?_cons]
  rcases c.usesDefaults with - | -
  · rfl
  · exact congrArg _ (Registry.find?_add_cons h setting.defaults [])

theorem function?_registered (h : g.name ≠ Text.upperCase name) :
    function? setting { c with registry := c.registry.add g } name = c.function? setting name := by
  rw [function?, function?, Registry.findOrSheet?, Registry.findOrSheet?, find?_chain_registered h]

theorem function?_registeredByDefault (h : g.name ≠ Text.upperCase name) :
    c.function? { setting with defaults := setting.defaults.add g } name =
      c.function? setting name := by
  rw [function?, function?, Registry.findOrSheet?, Registry.findOrSheet?,
    find?_chain_registeredByDefault h]

/-- What is known by a name stays known as long as other names are registered. -/
theorem isLasting_knows (name : String) (f : Function) :
    IsLasting (· ≠ Text.upperCase name) (Knows name f) where
  setting {setting setting' c} h hdefaults _ := by
    rw [Knows, chain, hdefaults]
    exact h
  rebound _ h _ := h
  put h _ := h
  forget h _ := h
  suspended h _ := h
  receiveAll h _ := h
  registered h hname := (find?_chain_registered hname).trans h
  registeredByDefault h hname := (find?_chain_registeredByDefault hname).trans h

/-! ### Texts that stay current -/

/-- Whether a calculator reads names in a given way and a text is current for it. -/
def KeepsCurrent (lexer : LexerOptions) (text : String) (setting : Setting) (c : Calculator) :
    Prop := c.lexerOptions = lexer ∧ c.IsCurrent setting text

/-- Whether a text calls no function of an upper-case name. -/
def CallsNone (lexer : LexerOptions) (text name : String) : Prop :=
  ∀ tokens, Token.scan lexer text = .ok tokens →
    ∀ other ∈ Token.calledNames tokens, name ≠ Text.upperCase other

/-- A text goes on spelling its tree where the names that it calls mean what they did. -/
theorem parse_of_callsNone {setting' : Setting} {c' : Calculator} {e : Expr}
    (hlexer : c'.lexerOptions = c.lexerOptions) (hcalls : CallsNone c.lexerOptions text name)
    (hfunction : ∀ other, name ≠ Text.upperCase other →
      c'.function? setting' other = c.function? setting other)
    (h : c.parse setting text = .ok e) : c'.parse setting' text = .ok e := by
  obtain ⟨tokens, hscan, -⟩ := Expr.exists_scan_of_ofText h
  rw [parse, hlexer]
  exact Expr.ofText_of_agree h hscan
    ⟨rfl, fun other hother => hfunction other (hcalls tokens hscan other hother)⟩

theorem parse_registered {e : Expr} (hcalls : CallsNone c.lexerOptions text f.name)
    (h : c.parse setting text = .ok e) :
    parse setting { c with registry := c.registry.add f } text = .ok e :=
  have hlexer : lexerOptions { c with registry := c.registry.add f } = c.lexerOptions := rfl
  parse_of_callsNone hlexer hcalls (fun _ hother => function?_registered hother) h

theorem parse_registeredByDefault {e : Expr} (hcalls : CallsNone c.lexerOptions text f.name)
    (h : c.parse setting text = .ok e) :
    c.parse { setting with defaults := setting.defaults.add f } text = .ok e :=
  parse_of_callsNone rfl hcalls (fun _ hother => function?_registeredByDefault hother) h

/-- A text that spells a tree calls no name that means nothing. -/
theorem callsNone_of_function? {e : Expr} (hnone : c.function? setting name = none)
    (h : c.parse setting text = .ok e) :
    CallsNone c.lexerOptions text (Text.upperCase name) := by
  obtain ⟨tokens, hscan, hanswers⟩ := Expr.answered_of_ofText h
  intro tokens' hscan' other hother hname
  obtain rfl : tokens = tokens' := Except.ok.inj (hscan.symm.trans hscan')
  obtain ⟨⟨i, hi⟩, hget⟩ := List.get_of_mem hother
  have hanswer := hanswers.get hi (hanswers.length_eq ▸ hi)
  rw [hget] at hanswer
  have hmeans : c.function? setting other = none := by
    rw [← hnone]
    exact Registry.findOrSheet?_of_upperCase hname.symm _ _
  cases hanswer.1.symm.trans hmeans

/-- **A text stays current** as long as no function is registered that it calls. -/
theorem isLasting_keepsCurrent (lexer : LexerOptions) (text : String) :
    IsLasting (CallsNone lexer text) (KeepsCurrent lexer text) where
  setting {setting setting' c} h hdefaults hsheet := by
    have hparse : c.parse setting' = c.parse setting := by
      funext s
      have hfunction : c.function? setting' = c.function? setting := by
        funext name
        rw [function?, function?, chain, chain, hdefaults, hsheet]
      rw [parse, parse, parserOptions, parserOptions, hfunction]
    exact ⟨h.1, h.2.of_cached? (fun _ hv => hv) fun e he => (congrFun hparse text).trans he⟩
  rebound {setting c b} detached h hcase := by
    have hlexer : lexerOptions { c with bindings := b, detached := detached } = c.lexerOptions := by
      rw [lexerOptions, lexerOptions, hcase]
    exact ⟨hlexer.trans h.1, h.2.rebound detached hcase⟩
  put h hparse := ⟨h.1, h.2.put hparse⟩
  forget h forgets := ⟨h.1, h.2.forget forgets⟩
  suspended h _ := h
  receiveAll h writes := ⟨h.1, h.2.receiveAll writes⟩
  registered {setting c f} h hcalls := by
    rw [← h.1] at hcalls
    exact ⟨h.1, h.2.of_cached? (fun _ hv => hv) fun e he => parse_registered hcalls he⟩
  registeredByDefault {setting c f} h hcalls := by
    rw [← h.1] at hcalls
    exact ⟨h.1, h.2.of_cached? (fun _ hv => hv) fun e he => parse_registeredByDefault hcalls he⟩

end Calculator

/-! ### Sessions -/

namespace CalculatorSession

open Calculator (Knows KeepsCurrent CallsNone isLasting_knows isLasting_keepsCurrent)

variable {library : Library} {s : State} {calculator name returnType body : String}
  {f : Function} {command : Command} {v : Value}

/-- Whether a command registers a function for the calculator of a name: on the calculator, or by
default where it uses the defaults and does not know the name itself. -/
inductive Command.Registers (s : State) (calculator name returnType body : String) : Command → Prop
  | own : Registers s calculator name returnType body
    ⟨calculator, .addFunctions [(name, returnType, body)]⟩
  | default {other : String} (huses : (s.calculator calculator).usesDefaults = true)
    (hlocal : Table.get? (s.calculator calculator).registry (Text.upperCase name) = none) :
    Registers s calculator name returnType body ⟨other, .addDefaultFunction name returnType body⟩

/-- The state in which the calculator of a name has nothing in its cache, and all else is as it is.
-/
def State.fresh (s : State) (calculator : String) : State :=
  { s with ensemble := s.ensemble.put (s.number calculator) (s.calculator calculator).fresh }

/-- Whether a text is current for the calculator of a name. -/
def State.IsCurrent (s : State) (calculator text : String) : Prop :=
  (s.calculator calculator).IsCurrent s.setting text

/-- Whether a function is in effect under a name on a calculator. The name means the function, in
whatever case it is written. So do the calls of it in a current text, with arguments that the
function accepts. And evaluations that come to current texts only, themselves and through routines,
come to the same as on the calculator with nothing in its cache. -/
structure InEffect (library : Library) (s : State) (calculator name : String) (f : Function) :
    Prop where
  means : ∀ {other}, Text.upperCase other = Text.upperCase name →
    (s.calculator calculator).function? s.setting other = some f
  calls : ∀ {text tree}, s.IsCurrent calculator text →
    (s.calculator calculator).treeOf s.setting (.text text) = .ok tree →
      ∃ tokens, Token.scan (s.calculator calculator).lexerOptions text = .ok tokens ∧
        List.Forall₂ (fun other call =>
          Answers ((s.calculator calculator).function? s.setting) other call ∧
            (Text.upperCase other = Text.upperCase name → call.1 = f))
          (Token.calledNames tokens) tree.calls
  evaluate : ∀ {A : String → Prop}, library.EvaluatesOnly A →
    (∀ text, A text → s.IsCurrent calculator text) →
      ∀ {expression : Value}, expression.EvaluatesOnly A → ∀ data handler,
        (act library ⟨calculator, .evaluate expression data handler⟩ s).1 =
          (act library ⟨calculator, .evaluate expression data handler⟩ (s.fresh calculator)).1
  evaluateStrict : ∀ {A : String → Prop}, library.EvaluatesOnly A →
    (∀ text, A text → s.IsCurrent calculator text) →
      ∀ {expression : Value}, expression.EvaluatesOnly A → ∀ data,
        (act library ⟨calculator, .evaluateStrict expression data⟩ s).1 =
          (act library ⟨calculator, .evaluateStrict expression data⟩ (s.fresh calculator)).1

/-! ### Registering -/

/-- Registering a function that is well-formed adds it to the registry of the calculator or to the
defaults. -/
theorem act_of_registers (hs : s.Has calculator)
    (hcommand : command.Registers s calculator name returnType body)
    (hok : (act library command s).1 = .ok v) :
    ∃ target f, Registry.functionOf name returnType (library.offered body target) = .ok f ∧
      let after := (act library command s).2
      let c := s.calculator calculator
      after.Has calculator ∧
        (after.setting = s.setting ∧
            after.calculator calculator = { c with registry := c.registry.add f } ∨
          after.setting = { s.setting with defaults := s.setting.defaults.add f } ∧
            after.calculator calculator = c ∧ c.usesDefaults = true ∧
            Table.get? c.registry (Text.upperCase name) = none) := by
  cases hcommand with
  | own =>
    simp only [act, nextStep, computation, answeringTrue, Ensemble.Run.toSolve, Ensemble.onOne,
      addFunctions, Calculator.addFunction] at hok ⊢
    rcases hf : Registry.functionOf name returnType (library.offered body none) with fault | f
    · rw [hf] at hok
      cases hok
    · have hnext : Ensemble.Has (s.number calculator)
          { s.ensemble with step := s.ensemble.step + 1, calls := 0 } := ⟨hs.has, hs.lt⟩
      exact ⟨none, f, hf, hnext.put _ _,
        .inl ⟨rfl, (Ensemble.calculator_put _ _ _ _).trans (if_pos rfl)⟩⟩
  | @default other huses hlocal =>
    simp only [act] at hok ⊢
    rcases hf : Registry.functionOf name returnType
      (library.offered body (some (s.number other))) with fault | f
    · rw [hf] at hok
      cases hok
    · exact ⟨some (s.number other), f, hf, hs, .inr ⟨rfl, rfl, huses, hlocal⟩⟩

/-- Once a function is registered for a calculator, the calculator knows it. -/
theorem houses_knows_of_registers (hs : s.Has calculator)
    (hcommand : command.Registers s calculator name returnType body)
    (hok : (act library command s).1 = .ok v) :
    ∃ target f, Registry.functionOf name returnType (library.offered body target) = .ok f ∧
      (act library command s).2.Houses (Knows name f) calculator := by
  obtain ⟨target, f, hf, hhas, hafter⟩ := act_of_registers hs hcommand hok
  refine ⟨target, f, hf, hhas, ?_⟩
  have hname := Registry.name_of_functionOf hf
  change Knows name f _ (State.calculator _ calculator)
  obtain ⟨hsetting, hcalculator⟩ | ⟨hsetting, hcalculator, huses, hlocal⟩ := hafter
  · rw [hcalculator]
    exact Calculator.knows_registered hname
  · rw [hsetting, hcalculator]
    exact Calculator.knows_registeredByDefault hname huses hlocal

/-- A function under a name that meant nothing before leaves all texts current: none of them calls
it. -/
theorem isCurrent_of_registers (hs : s.Has calculator)
    (hcommand : command.Registers s calculator name returnType body)
    (hok : (act library command s).1 = .ok v)
    (hnone : (s.calculator calculator).function? s.setting name = none) {text : String}
    (hcurrent : s.IsCurrent calculator text) :
    (act library command s).2.IsCurrent calculator text := by
  obtain ⟨target, f, hf, -, hafter⟩ := act_of_registers hs hcommand hok
  have hcalls : ∀ {e}, (s.calculator calculator).parse s.setting text = .ok e →
      CallsNone (s.calculator calculator).lexerOptions text f.name := by
    intro e he
    rw [Registry.name_of_functionOf hf]
    exact Calculator.callsNone_of_function? hnone he
  rw [State.IsCurrent]
  obtain ⟨hsetting, hcalculator⟩ | ⟨hsetting, hcalculator, -, -⟩ := hafter
  · rw [hsetting, hcalculator]
    exact hcurrent.of_cached? (fun _ hv => hv) fun e he =>
      Calculator.parse_registered (hcalls he) he
  · rw [hsetting, hcalculator]
    exact hcurrent.of_cached? (fun _ hv => hv) fun e he =>
      Calculator.parse_registeredByDefault (hcalls he) he

/-! ### What registering comes to -/

/-- Without the cache, evaluations come to the same if they come to current texts only. -/
theorem alike_fresh (hs : s.Has calculator) {A : String → Prop}
    (hcurrent : ∀ text, A text → s.IsCurrent calculator text) :
    Ensemble.Alike A s.setting { s.ensemble with step := s.ensemble.step + 1, calls := 0 }
      { (s.fresh calculator).ensemble with step := s.ensemble.step + 1, calls := 0 } :=
  Ensemble.alike_fresh (e := { s.ensemble with step := s.ensemble.step + 1, calls := 0 }) hs.has
    hcurrent

/-- **A function that is known is in effect.** -/
theorem inEffect_of_houses (hs : s.Houses (Knows name f) calculator) :
    InEffect library s calculator name f where
  means := hs.property.function?
  calls {text tree} hcurrent htree := by
    obtain ⟨tokens, hscan, hanswers⟩ := Calculator.answered_of_isCurrent hcurrent htree
    refine ⟨tokens, hscan, hanswers.imp fun other call hanswer => ⟨hanswer, fun hother => ?_⟩⟩
    exact Option.some.inj (hanswer.1.symm.trans (hs.property.function? hother))
  evaluate {A} hlibrary hcurrent expression hexpression data handler := by
    have hcouples := (Ensemble.coupling_alike A s.setting).evaluate hlibrary hexpression
      (s.number calculator) handler data
    exact (Ensemble.Coupling.toSolve hcouples _ _ (alike_fresh hs.toHas hcurrent)).1.symm
  evaluateStrict {A} hlibrary hcurrent expression hexpression data := by
    have hcouples := (Ensemble.coupling_alike A s.setting).evaluateStrict hlibrary hexpression
      (s.number calculator) data
    exact (Ensemble.Coupling.toSolve hcouples _ _ (alike_fresh hs.toHas hcurrent)).1.symm

/-- A text stays current as long as no function is registered that it calls. -/
theorem isCurrent_of_follows {text : String} (hs : s.Has calculator)
    (hcurrent : s.IsCurrent calculator text) {after : State}
    (hafter : (session library).Follows (Command.Spares calculator
      (CallsNone (s.calculator calculator).lexerOptions text)) s after) :
    after.IsCurrent calculator text := by
  have hkeeps : s.Houses (KeepsCurrent (s.calculator calculator).lexerOptions text) calculator :=
    ⟨hs, rfl, hcurrent⟩
  have hlast := (preserves_houses library (isLasting_keepsCurrent _ text) calculator).of_follows
    hafter hkeeps
  exact hlast.property.2

/-- **A function that is registered takes effect**, and stays in effect until its name is registered
anew. Texts stop being current only when functions are registered that they call, and none does if
the name of the function meant nothing before. -/
theorem inEffect_of_registers (hs : s.Has calculator)
    (hcommand : command.Registers s calculator name returnType body)
    (hok : (act library command s).1 = .ok v) :
    (∃ target f, Registry.functionOf name returnType (library.offered body target) = .ok f ∧
      ∀ after, (session library).Follows (Command.Spares calculator (· ≠ Text.upperCase name))
        (act library command s).2 after → InEffect library after calculator name f) ∧
    ∀ text, s.IsCurrent calculator text →
      ((s.calculator calculator).function? s.setting name = none →
        (act library command s).2.IsCurrent calculator text) ∧
      ∀ after, (session library).Follows (Command.Spares calculator
          (CallsNone (s.calculator calculator).lexerOptions text)) s after →
        after.IsCurrent calculator text := by
  obtain ⟨target, f, hf, hknows⟩ := houses_knows_of_registers hs hcommand hok
  refine ⟨⟨target, f, hf, fun after hafter => inEffect_of_houses ?_⟩, fun text hcurrent =>
    ⟨fun hnone => isCurrent_of_registers hs hcommand hok hnone hcurrent,
      fun after hafter => isCurrent_of_follows hs hcurrent hafter⟩⟩
  exact (preserves_houses library (isLasting_knows name f) calculator).of_follows hafter hknows

/-! ### A text that was parsed before -/

/-- The state after a function was registered and an evaluation called it. -/
def calledOnce : State :=
  let registered := (act Samples.library ⟨"c", .addFunctions [("f", "any", "three")]⟩
    (State.initial .empty (some "c"))).2
  (act Samples.library ⟨"c", .evaluate (.text "f()") .none .silent⟩ registered).2

/-- The command that registers another body under the name. -/
def registeringAnew : Command := ⟨"c", .addFunctions [("f", "any", "count_all")]⟩

theorem act_registeringAnew (s : State) :
    (act Samples.library registeringAnew s).1 = .ok (.bool true) := rfl

theorem inEffect_calledOnce : calledOnce.Has "c" ∧
    registeringAnew.Registers calledOnce "c" "f" "any" "count_all" ∧
    (act Samples.library registeringAnew calledOnce).1 = .ok (.bool true) ∧
    ∃ target f, Registry.functionOf "f" "any" (Samples.library.offered "count_all" target) = .ok f ∧
      InEffect Samples.library (act Samples.library registeringAnew calledOnce).2 "c" "f" f := by
  have hhas : calledOnce.Has "c" := by
    have hinitial : (State.initial .empty (some "c")).Has "c" := ⟨rfl, Nat.one_pos⟩
    exact hinitial.of_follows (.act (.act .here fun _ _ _ => trivial) trivial)
  have hok := act_registeringAnew calledOnce
  obtain ⟨⟨target, f, hf, heffect⟩, -⟩ := inEffect_of_registers hhas .own hok
  exact ⟨hhas, .own, hok, target, f, hf, heffect _ .here⟩

/-- But the text is still in the cache with its old tree, so evaluating it calls the body that it
called before. -/
theorem act_evaluate_registeringAnew_ne :
    (act Samples.library registeringAnew calledOnce).1 = .ok (.bool true) ∧
      let registered := (act Samples.library registeringAnew calledOnce).2
      (act Samples.library ⟨"c", .evaluate (.text "f()") .none .silent⟩ registered).1 ≠
        (act Samples.library ⟨"c", .evaluate (.text "f()") .none .silent⟩
          (registered.fresh "c")).1 := by
  refine ⟨act_registeringAnew calledOnce, ?_⟩
  have hstale : (act Samples.library ⟨"c", .evaluate (.text "f()") .none .silent⟩
      (act Samples.library registeringAnew calledOnce).2).1 = .ok (.int 3) := by
    rw [calledOnce, State.initial, Setting.initial_eq]
    cbv
  have hfresh : (act Samples.library ⟨"c", .evaluate (.text "f()") .none .silent⟩
      ((act Samples.library registeringAnew calledOnce).2.fresh "c")).1 = .ok (.int 0) := by
    rw [calledOnce, State.initial, Setting.initial_eq]
    cbv
  simp [hstale, hfresh]

end CalculatorSession

end Formulary
