import Formulary.Function.Samples
import Formulary.Proofs.Calculator.CurrentTexts
import Formulary.Proofs.Mapping.Recasing
import Formulary.Proofs.Token.Recasing

/-!
# Letter case on calculators

A calculator for which letter case does not count cannot tell two texts apart that are the same but
for letter case, nor two data (`Ensemble.sameOutcome_of_areRecased`): the texts have the same tokens
and form the same tree, or neither is an expression, and with the data bound both have the same
value, or fail with the same kind of failure over the same names.

There are two provisos. A text that is in the cache is not parsed again, so both texts must be
current; and data are flattened before their keys become names, so the same leaves must have flat
keys in common. Without them the calculator can tell letter case
(`Ensemble.evaluateStrict_recased_ne`).

Where a tree is found both evaluations go on in ensembles that differ in their caches only, and are
coupled. Where the lexer fails it fails for both texts, but reports each one in its own case.
-/

namespace Formulary

namespace Calculator

/-- Data that is a mapping binds what is in it, also if it is empty and counts as none. -/
theorem entries?_dataOf {data : Value} {entries : Mapping} (h : data.entries? = some entries) :
    (dataOf data).entries? = some entries := by
  have htruthy : data.truthy = !entries.isEmpty := by
    fun_induction Value.entries? data with
    | case1 => rw [← Option.some.inj h]; rfl
    | case2 identity content ih => exact ih h
    | case3 => cases h
  rw [dataOf, htruthy]
  cases entries with
  | nil => rfl
  | cons entry rest => exact h

/-- **Where letter case does not count, data that are the same but for letter case are bound as the
same**, if the same ones of their leaves have flat keys in common. -/
theorem openData_of_uncased_eq {c : Calculator} (hcase : c.bindings.caseSensitive = false)
    (hnested : c.bindings.ignoreNested = false) {data data' : Value} {entries entries' : Mapping}
    (hentries : data.entries? = some entries) (hentries' : data'.entries? = some entries')
    (h : Mapping.uncased entries = Mapping.uncased entries')
    (hcoincide : entries.CoincideAlike entries') : c.openData data' = c.openData data := by
  rw [openData_of_entries? c (entries?_dataOf hentries),
    openData_of_entries? c (entries?_dataOf hentries'), opened, opened, Bindings.writeAll,
    Bindings.writeAll, Bindings.entriesOf_of_uncased_eq hcase hnested h hcoincide]

/-- Texts that are the same but for letter case are parsed to the same, or fail for a character. -/
theorem parse_eq_or {setting : Setting} {c : Calculator} (hcase : c.bindings.caseSensitive = false)
    {text text' : String} (h : Token.AreRecased text text') :
    c.parse setting text' = c.parse setting text ∨
      (∃ d place, c.parse setting text = .error (.unexpectedCharacter d place text)) ∧
        ∃ d place, c.parse setting text' = .error (.unexpectedCharacter d place text') :=
  Expr.ofText_eq_or hcase h (c.parserOptions setting)

/-- Whether letter case does not count for a calculator, and two texts that spell the same for it
are current. -/
structure IsUncasedFor (setting : Setting) (text text' : String) (c : Calculator) : Prop where
  caseSensitive : c.bindings.caseSensitive = false
  ignoreNested : c.bindings.ignoreNested = false
  parse : c.parse setting text' = c.parse setting text
  current : c.IsCurrent setting text
  current' : c.IsCurrent setting text'

namespace IsUncasedFor

variable {setting : Setting} {text text' : String} {c c' : Calculator}

/-- Such texts have one tree. -/
theorem treeOf (h : c.IsUncasedFor setting text text') :
    c.treeOf setting (.text text') = c.treeOf setting (.text text) := by
  rw [treeOf_of_isCurrent h.current', treeOf_of_isCurrent h.current, h.parse]

theorem of_staysCurrent (h : c.IsUncasedFor setting text text') (hstays : c.StaysCurrent setting c')
    (hcase : c'.bindings.caseSensitive = c.bindings.caseSensitive)
    (hnested : c'.bindings.ignoreNested = c.bindings.ignoreNested) :
    c'.IsUncasedFor setting text text' where
  caseSensitive := hcase.trans h.caseSensitive
  ignoreNested := hnested.trans h.ignoreNested
  parse := by rw [hstays.parse, h.parse]
  current := hstays.current text h.current
  current' := hstays.current text' h.current'

end IsUncasedFor

end Calculator

namespace Ensemble

/-! ### What stays as it is -/

/-- **No step of an evaluation brings letter case to count**, nor makes one of two texts stale. -/
theorem coupling_alike_uncased (setting : Setting) (n : Nat) (text text' : String) :
    Coupling (fun _ => True) setting setting (fun e e' => Alike (fun _ => True) setting e e' ∧
      (e.calculator n).IsUncasedFor setting text text') := by
  have hput : ∀ {e : Ensemble} {m : Nat} {c : Calculator},
      (e.calculator n).IsUncasedFor setting text text' →
      (e.calculator m).StaysCurrent setting c →
      c.bindings.caseSensitive = (e.calculator m).bindings.caseSensitive →
      c.bindings.ignoreNested = (e.calculator m).bindings.ignoreNested →
        ((e.put m c).calculator n).IsUncasedFor setting text text' := by
    intro e m c h hstays hcase hnested
    rw [calculator_put]
    split
    · next hm =>
      subst hm
      exact h.of_staysCurrent hstays hcase hnested
    · exact h
  refine (coupling_alike (fun _ => True) setting).withInvariant (fun h _ _ => h)
    (fun h _ _ detached hcase hnested => hput h (.rebound detached hcase) hcase hnested)
    (fun h _ forgets => hput h (.forget forgets) rfl rfl) fun {e} h m expression => ?_
  have hlearnt : (e.calculator m).Learnt setting
      ((Calculator.resolve setting expression).run (e.calculator m)).2 := by
    obtain ⟨c, hrun, hlearnt⟩ := Calculator.run_resolve setting expression (e.calculator m)
    rwa [hrun]
  exact hput h (.resolve expression) (congrArg Bindings.caseSensitive hlearnt.bindings)
    (congrArg Bindings.ignoreNested hlearnt.bindings)

/-! ### Outcomes -/

/-- Whether two outcomes are the same value, or failures of the same kind over the same names. -/
def SameOutcome : Except Error Value → Except Error Value → Prop
  | .ok v, .ok w => v = w
  | .error fault, .error fault' =>
    fault.kind = fault'.kind ∧ fault.unboundNames = fault'.unboundNames
  | _, _ => False

theorem SameOutcome.refl (outcome : Except Error Value) : SameOutcome outcome outcome := by
  cases outcome with
  | error fault => exact ⟨rfl, rfl⟩
  | ok v => rfl

section

variable {library : Library} {setting : Setting} {n : Nat} {e : Ensemble}

/-- Where no tree is found, an evaluation fails for this. -/
theorem run_evaluateOne_of_treeOf {call : Function → List Value → Run Value}
    {expression data : Value} {entries : Mapping} (hentries : data.entries? = some entries)
    {fault : Error} (htree : (e.calculator n).treeOf setting expression = .error fault) :
    ((evaluateOne setting call n expression data).run e).1 = .error fault := by
  obtain ⟨c, hrun, -⟩ :=
    Calculator.run_resolve setting expression ((e.calculator n).opened entries)
  rw [Calculator.treeOf_opened, htree] at hrun
  simp only [evaluateOne, withData, ExceptT.run_mk,
    Calculator.openData_of_entries? _ (Calculator.entries?_dataOf hentries), Stateful.run_bind,
    onOne, calculator_put_self, hrun]

theorem run_isolated_of_error {leave : Nat → Nat → Value → Value} {run : Run Value} {fault : Error}
    (h : (run.run e).1 = .error fault) : ((isolated leave run).run e).1 = .error fault := by
  rw [isolated, ExceptT.run_mk]
  rcases hrun : run.run e with ⟨outcome, after⟩
  obtain rfl : outcome = .error fault := by rw [← h, hrun]
  simp only
  split
  · rfl
  · rfl

/-- A failure of the lexer is not answered by a handler. -/
theorem run_evaluateOneOr_of_unexpected {call : Function → List Value → Run Value}
    {handler : Handler} {expression data : Value} {entries : Mapping}
    (hentries : data.entries? = some entries) {c : Char} {place : Nat} {text : String}
    (htree : (e.calculator n).treeOf setting expression =
      .error (.unexpectedCharacter c place text)) :
    ((evaluateOneOr setting call n handler expression data).run e).1 =
      .error (.unexpectedCharacter c place text) := by
  have hone : ((evaluateOne setting call n expression data).run e).1 = _ :=
    run_evaluateOne_of_treeOf hentries htree
  rw [evaluateOneOr, Stateful.run_tryCatch]
  rcases hrun : (evaluateOne setting call n expression data).run e with ⟨outcome, after⟩
  obtain rfl : outcome = .error (.unexpectedCharacter c place text) := by rw [← hone, hrun]
  rfl

/-- Two such texts are evaluated alike, with data that are the same but for letter case as with one
data. -/
theorem couples_evaluateOne {text text' : String} {data data' : Value} {entries entries' : Mapping}
    (hentries : data.entries? = some entries) (hentries' : data'.entries? = some entries')
    (hdata : Mapping.uncased entries = Mapping.uncased entries')
    (hcoincide : entries.CoincideAlike entries') :
    Couples (fun e e' => Alike (fun _ => True) setting e e' ∧
        (e.calculator n).IsUncasedFor setting text text')
      (evaluateOne setting (call library setting n) n (.text text) data)
      (evaluateOne setting (call library setting n) n (.text text') data') := by
  have hcoupling := coupling_alike_uncased setting n text text'
  refine hcoupling.evaluateOne_of_resolve
    (hcoupling.call (library.evaluatesOnly_of_forall fun _ => trivial) n) n ?_ ?_
  · rintro e e' ⟨halike, hcase⟩
    have hresolve : Couples _ (onOne n (Calculator.resolve setting (.text text)))
        (onOne n (Calculator.resolve setting (.text text))) :=
      hcoupling.resolve n fun _ _ => trivial
    obtain ⟨houtcome, hafter⟩ := halike.run_resolve n (fun _ _ => trivial) hcase.treeOf
    exact ⟨houtcome, hafter, (hresolve e e' ⟨halike, hcase⟩).2.2⟩
  · rintro e e' ⟨halike, hcase⟩
    refine Calculator.openData_of_uncased_eq ?_ ?_ hentries hentries' hdata hcoincide
    · rw [(halike.agrees n).bindings]
      exact hcase.caseSensitive
    · rw [(halike.agrees n).bindings]
      exact hcase.ignoreNested

/-- **A calculator for which letter case does not count cannot tell it.** Texts that are the same
but for the case of ASCII letters outside of quoted texts have the same tokens, or both have none,
and are the same expression, or both are none. With data that are the same but for the case of ASCII
letters in their keys they have the same value, or fail with the same kind of failure over the same
names, if both texts are current and the same leaves of the data have flat keys in common. -/
theorem sameOutcome_of_areRecased (hcase : (e.calculator n).bindings.caseSensitive = false)
    (hnested : (e.calculator n).bindings.ignoreNested = false) {text text' : String}
    (htext : Token.AreRecased text text') :
    (Token.scan (e.calculator n).lexerOptions text').toOption =
        (Token.scan (e.calculator n).lexerOptions text).toOption ∧
      ((e.calculator n).parse setting text').toOption =
        ((e.calculator n).parse setting text).toOption ∧
      ∀ {data data' : Value} {entries entries' : Mapping}, data.entries? = some entries →
        data'.entries? = some entries' → Mapping.uncased entries = Mapping.uncased entries' →
        entries.CoincideAlike entries' → (e.calculator n).IsCurrent setting text →
        (e.calculator n).IsCurrent setting text' →
        SameOutcome ((evaluateStrict library setting n (.text text) data).run e).1
            ((evaluateStrict library setting n (.text text') data').run e).1 ∧
          SameOutcome ((evaluate library setting n Handler.silent (.text text) data).run e).1
            ((evaluate library setting n Handler.silent (.text text') data').run e).1 := by
  refine ⟨Token.scan_of_areRecased hcase htext, ?_, ?_⟩
  · rcases Calculator.parse_eq_or hcase htext with hsame | ⟨⟨d, place, hfails⟩, d', place', hfails'⟩
    · rw [hsame]
    · rw [hfails, hfails']
      rfl
  · intro data data' entries entries' hentries hentries' hdata hcoincide hcurrent hcurrent'
    have htree := Calculator.treeOf_of_isCurrent hcurrent
    have htree' := Calculator.treeOf_of_isCurrent hcurrent'
    rw [evaluateStrict, evaluateStrict, evaluate, evaluate]
    simp only [forEach]
    rcases Calculator.parse_eq_or hcase htext with hsame | ⟨⟨d, place, hfails⟩, d', place', hfails'⟩
    · have hcoupling := coupling_alike_uncased setting n text text'
      have hone : Couples _ (evaluateOne setting (call library setting n) n (.text text) data)
          (evaluateOne setting (call library setting n) n (.text text') data') :=
        couples_evaluateOne hentries hentries' hdata hcoincide
      have hself : Alike (fun _ => True) setting e e ∧
          (e.calculator n).IsUncasedFor setting text text' :=
        ⟨.refl e, hcase, hnested, hsame, hcurrent, hcurrent'⟩
      have hhandled : Couples _
          (evaluateOneOr setting (call library setting n) n Handler.silent (.text text) data)
          (evaluateOneOr setting (call library setting n) n Handler.silent (.text text') data') :=
        Coupling.orHandled hone fun _ => rfl
      constructor
      · rw [(hcoupling.isolated hone e e hself).1]
        exact .refl _
      · rw [(hcoupling.isolated hhandled e e hself).1]
        exact .refl _
    · have hfound := htree.trans hfails
      have hfound' := htree'.trans hfails'
      constructor
      · rw [run_isolated_of_error (run_evaluateOne_of_treeOf hentries hfound),
          run_isolated_of_error (run_evaluateOne_of_treeOf hentries' hfound')]
        exact ⟨rfl, rfl⟩
      · rw [run_isolated_of_error (run_evaluateOneOr_of_unexpected hentries hfound),
          run_isolated_of_error (run_evaluateOneOr_of_unexpected hentries' hfound')]
        exact ⟨rfl, rfl⟩

end

/-- Data with a number and a nested number. -/
def lowerKeys : Mapping :=
  [(.text "rate", .int 2), (.text "Loan", .map [(.text "amount", .int 3)])]

/-- The same data with keys in other letter case. -/
def upperKeys : Mapping :=
  [(.text "Rate", .int 2), (.text "LOAN", .map [(.text "AMOUNT", .int 3)])]

/-- On a calculator as it is at first, a sum of both numbers is one in any letter case. -/
theorem sameOutcome_sum :
    let e := Ensemble.empty.put 0 (.usual .empty [])
    Token.AreRecased "Rate + Loan.amount" "RATE + loan.Amount" ∧
      Mapping.uncased lowerKeys = Mapping.uncased upperKeys ∧ lowerKeys.CoincideAlike upperKeys ∧
      (e.calculator 0).IsCurrent (.initial .empty) "Rate + Loan.amount" ∧
      (e.calculator 0).IsCurrent (.initial .empty) "RATE + loan.Amount" ∧
      SameOutcome
        ((evaluateStrict (fun _ => none) (.initial .empty) 0 (.text "Rate + Loan.amount")
          (.map lowerKeys)).run e).1
        ((evaluateStrict (fun _ => none) (.initial .empty) 0 (.text "RATE + loan.Amount")
          (.map upperKeys)).run e).1 := by
  have htext : Token.AreRecased "Rate + Loan.amount" "RATE + loan.Amount" := by
    rw [Token.AreRecased]
    cbv
  have hdata : Mapping.uncased lowerKeys = Mapping.uncased upperKeys := by cbv
  have hcoincide : lowerKeys.CoincideAlike upperKeys := by
    unfold Mapping.CoincideAlike
    decide
  have hcurrent (text : String) :
      ((Ensemble.empty.put 0 (.usual .empty [])).calculator 0).IsCurrent (.initial .empty) text := by
    intro v hv
    cases hv
  exact ⟨htext, hdata, hcoincide, hcurrent _, hcurrent _,
    ((sameOutcome_of_areRecased rfl rfl htext).2.2 rfl rfl hdata hcoincide (hcurrent _)
      (hcurrent _)).1⟩

/-- Data of which the first two leaves have flat keys of their own. -/
def mixedKeys : Mapping :=
  [(.text "A.b", .int 1), (.text "a.b", .int 2), (.text "A", .map [(.text "b", .int 3)])]

/-- The same data with the first key in upper case, which the last leaf then does not replace. -/
def otherKeys : Mapping :=
  [(.text "A.B", .int 1), (.text "a.b", .int 2), (.text "A", .map [(.text "b", .int 3)])]

/-- Which leaves are entries is settled before their keys become one name, of which the last entry
is read. -/
theorem evaluateStrict_mixedKeys :
    ((evaluateStrict (fun _ => none) (.initial .empty) 0 (.text "a.b") (.map mixedKeys)).run
        (Ensemble.empty.put 0 (.usual .empty []))).1 = .ok (.int 2) ∧
      ((evaluateStrict (fun _ => none) (.initial .empty) 0 (.text "a.b") (.map otherKeys)).run
        (Ensemble.empty.put 0 (.usual .empty []))).1 = .ok (.int 3) := by
  rw [Calculator.usual_eq, Setting.initial_eq]
  constructor
  · cbv
  · cbv

/-- A calculator with a function registered anew after a call of it was parsed. -/
def reregistered : Calculator :=
  { Calculator.usual .empty [] with
    registry := [("F", ⟨"F", .any, .routine "count_all" none, 0, none⟩)]
    cache := .ofSeed [("F()", .node (.call ⟨"F", .any, .routine "three" none, 0, some 0⟩ []))] }

/-- The call that was parsed before is of the function of that time. -/
theorem evaluateStrict_reregistered :
    ((evaluateStrict Samples.library (.initial .empty) 0 (.text "F()") .none).run
        (Ensemble.empty.put 0 reregistered)).1 = .ok (.int 3) ∧
      ((evaluateStrict Samples.library (.initial .empty) 0 (.text "f()") .none).run
        (Ensemble.empty.put 0 reregistered)).1 = .ok (.int 0) := by
  rw [reregistered, Calculator.usual_eq, Setting.initial_eq]
  constructor
  · cbv
  · cbv

/-- Neither proviso can go: one text has two values with data that are the same but for letter case,
if their leaves coincide differently, and two texts that are the same but for letter case have two
values if one is in the cache with a tree that it had before. -/
theorem evaluateStrict_recased_ne :
    (Mapping.uncased mixedKeys = Mapping.uncased otherKeys ∧
      ¬SameOutcome
        ((evaluateStrict (fun _ => none) (.initial .empty) 0 (.text "a.b") (.map mixedKeys)).run
          (Ensemble.empty.put 0 (.usual .empty []))).1
        ((evaluateStrict (fun _ => none) (.initial .empty) 0 (.text "a.b") (.map otherKeys)).run
          (Ensemble.empty.put 0 (.usual .empty []))).1) ∧
    Token.AreRecased "F()" "f()" ∧
      ¬SameOutcome
        ((evaluateStrict Samples.library (.initial .empty) 0 (.text "F()") .none).run
          (Ensemble.empty.put 0 reregistered)).1
        ((evaluateStrict Samples.library (.initial .empty) 0 (.text "f()") .none).run
          (Ensemble.empty.put 0 reregistered)).1 := by
  refine ⟨⟨by cbv, ?_⟩, ?_, ?_⟩
  · rw [evaluateStrict_mixedKeys.1, evaluateStrict_mixedKeys.2]
    simp [SameOutcome]
  · rw [Token.AreRecased]
    cbv
  · rw [evaluateStrict_reregistered.1, evaluateStrict_reregistered.2]
    simp [SameOutcome]

end Ensemble

end Formulary
