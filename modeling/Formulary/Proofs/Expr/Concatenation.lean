import Formulary.Calculator.Evaluation
import Formulary.Proofs.Expr.Completeness
import Formulary.Proofs.Expr.Evaluation
import Mathlib.Data.List.Forall2

/-!
# Concatenation and `CONCAT`

Operands joined by `&` are joined two by two from the left (`Expr.concatenation`), while `CONCAT`
joins the texts of all its arguments at once. Both evaluate the operands from left to right, and a
text that was joined before is joined again as it is, so both give the texts of the values, one
after the other (`Expr.evalWithin_concatenation`, `Expr.evalWithin_callConcat`).

The texts are not quite the same ones: a truth value is `True` or `False` to the operator and `TRUE`
or `FALSE` to the function. Both spellings are equally long, so nothing makes up for the difference,
and the two agree just where no operand is a truth value (`Expr.concatenation_eq_callConcat_iff`).
-/

namespace Formulary

/-! ### Texts of values -/

namespace Value

/-- Whether a value is a truth value. -/
def isTruth (v : Value) : Bool :=
  match v.bare with
  | .bool _ => true
  | _ => false

/-- Two values joined by `&`. -/
def joinedTo (v w : Value) : Value := .text (v.concatText ++ w.concatText)

@[simp] theorem concatText_text (s : String) : concatText (.text s) = s := rfl

/-- Joining two by two from the left joins all texts, since a text is joined as it is. -/
theorem concatText_foldl_joinedTo (v : Value) (ws : List Value) :
    (ws.foldl joinedTo v).concatText = String.join ((v :: ws).map concatText) := by
  induction ws generalizing v with
  | nil => rw [List.foldl_nil, List.map_singleton, String.join_cons, String.join_nil,
      String.append_empty]
  | cons w ws ih =>
    rw [List.foldl_cons, ih, List.map_cons, List.map_cons, List.map_cons, String.join_cons,
      String.join_cons, String.join_cons, joinedTo, concatText_text, String.append_assoc]

theorem foldl_joinedTo {ws : List Value} (h : ws ≠ []) (v : Value) :
    ws.foldl joinedTo v = .text (String.join ((v :: ws).map concatText)) := by
  -- the last step makes a text, and what text it is holds also if there is none before it
  rcases List.eq_nil_or_concat ws with rfl | ⟨front, w, rfl⟩
  · exact absurd rfl h
  · rw [← concatText_foldl_joinedTo, List.concat_eq_append, List.foldl_append]
    rfl

theorem display_bare (v : Value) : v.bare.display = v.display := by
  fun_induction bare v with
  | case1 identity content ih => exact ih
  | case2 v h => rfl

theorem isTruth_eq_true_iff {v : Value} : v.isTruth = true ↔ ∃ b, v.bare = .bool b := by
  rw [isTruth]
  cases v.bare <;> simp

theorem concatText_of_bare {v : Value} {b : Bool} (h : v.bare = .bool b) :
    v.concatText = if b then "True" else "False" := by
  rw [concatText, ← display_bare, h]
  cases b with
  | false => simp [display, shown]
  | true => simp [display, shown]

theorem textOf_of_bare {v : Value} {b : Bool} (h : v.bare = .bool b) :
    Builtin.textOf v = if b then "TRUE" else "FALSE" := by
  rw [Builtin.textOf, h]

theorem concatText_eq_textOf {v : Value} (h : v.isTruth = false) :
    v.concatText = Builtin.textOf v := by
  rw [isTruth] at h
  rw [concatText, Builtin.textOf]
  cases hbare : v.bare with
  | bool b => simp [hbare] at h
  | _ => rfl

/-- The operator and the function write a value alike just if it is no truth value. -/
theorem concatText_eq_textOf_iff {v : Value} :
    v.concatText = Builtin.textOf v ↔ v.isTruth = false := by
  refine ⟨fun h => ?_, concatText_eq_textOf⟩
  by_contra htruth
  obtain ⟨b, hb⟩ := isTruth_eq_true_iff.mp (Bool.eq_true_of_not_eq_false htruth)
  rw [concatText_of_bare hb, textOf_of_bare hb] at h
  revert h
  cases b with
  | false => decide
  | true => decide

/-- However they are spelled, texts of one value are equally long. -/
theorem length_concatText (v : Value) : v.concatText.length = (Builtin.textOf v).length := by
  rcases h : v.isTruth with - | -
  · rw [concatText_eq_textOf h]
  · obtain ⟨b, hb⟩ := isTruth_eq_true_iff.mp h
    rw [concatText_of_bare hb, textOf_of_bare hb]
    cases b with
    | false => decide
    | true => decide

/-- Joined texts are equal just if no value is a truth value. -/
theorem join_concatText_eq_joined_iff (values : List Value) :
    String.join (values.map concatText) = Builtin.joined values ↔
      ∀ v ∈ values, v.isTruth = false := by
  rw [Builtin.joined]
  induction values with
  | nil => simp
  | cons v values ih =>
    rw [List.map_cons, List.map_cons, String.join_cons, String.join_cons, List.forall_mem_cons,
      ← concatText_eq_textOf_iff, ← ih]
    constructor
    · intro h
      -- the first parts are equally long, so the joined texts part at the same place
      have hchars := congrArg String.toList h
      rw [String.toList_append, String.toList_append] at hchars
      obtain ⟨hfirst, hrest⟩ := List.append_inj hchars (by
        rw [String.length_toList, String.length_toList, length_concatText])
      exact ⟨String.toList_inj.mp hfirst, String.toList_inj.mp hrest⟩
    · rintro ⟨hfirst, hrest⟩
      rw [hfirst, hrest]

end Value

/-! ### Chains of operands -/

namespace Expr

/-- Operands joined by `&`, which groups from the left. -/
def concatenation (first : Expr) (rest : List Expr) : Expr := rest.foldl (.binary .concat) first

/-- A call of `CONCAT`. -/
def callConcat (args : List Expr) : Expr := .call Builtin.concat.function args

/-- What is written as operands with `&` between each two is their chain. -/
theorem derives_concatenation {options : ParserOptions} {ts : List Token} {first : Expr}
    (h : Parser.Derives options .additive ts first) (operands : List (Token × List Token × Expr))
    (hs : ∀ o ∈ operands, Parser.IsOperator .concat o.1 ∧
      Parser.Derives options .multiplicative o.2.1 o.2.2) :
    Parser.Derives options .additive (ts ++ operands.flatMap fun o => o.1 :: o.2.1)
      (concatenation first (operands.map fun o => o.2.2)) := by
  induction operands generalizing ts first with
  | nil => simpa [concatenation] using h
  | cons o operands ih =>
    obtain ⟨⟨ht, hr⟩, hrest⟩ := List.forall_mem_cons.mp hs
    have hjoined := ih (.add h (by simp) ht hr) hrest
    simpa [concatenation] using hjoined

section

variable {m : Type → Type} [Monad m] [LawfulMonad m] [MonadExceptOf Error m]
variable (s : Surroundings m)

/-- The operands are evaluated from left to right, and then joined two by two. -/
theorem evalBy_concatenation (formula : Expr → m Value) (first : Expr) (rest : List Expr) :
    (concatenation first rest).evalBy s formula = do
      let v ← first.evalBy s formula
      let ws ← evalAllBy s formula rest
      return ws.foldl Value.joinedTo v := by
  -- on the operands behind the first one, which grows by one of them at each step
  induction rest generalizing first with
  | nil => simp only [concatenation, List.foldl_nil, evalAllBy, pure_bind, bind_pure]
  | cons e rest ih =>
    have hstep : concatenation first (e :: rest) =
        concatenation (.binary .concat first e) rest := rfl
    have hjoin : ∀ v w : Value, MonadExcept.ofExcept (Operator.concat.apply v w) =
        (pure (v.joinedTo w) : m Value) := fun _ _ => rfl
    simp only [hstep, ih, evalBy, evalAllBy, hjoin, bind_assoc, pure_bind, List.foldl_cons]

omit [LawfulMonad m] in
/-- A bound on the formulas that may be open at once is a way to evaluate formulas. -/
theorem exists_evalWithin_eq (depth : Nat) :
    ∃ formula : Expr → m Value, evalWithin s depth = Expr.evalBy s formula := by
  cases depth with
  | zero => exact ⟨_, funext fun e => by rw [evalWithin]⟩
  | succ depth => exact ⟨_, funext fun e => by rw [evalWithin]⟩

theorem mapM_evalBy (formula : Expr → m Value) (es : List Expr) :
    es.mapM (Expr.evalBy s formula) = evalAllBy s formula es := by
  induction es with
  | nil => rw [evalAllBy, List.mapM_nil]
  | cons e es ih => rw [evalAllBy, List.mapM_cons, ih]

/-- **A chain of operands** has the texts of their values, one after the other. -/
theorem evalWithin_concatenation (depth : Nat) (first : Expr) {rest : List Expr}
    (h : rest ≠ []) :
    (concatenation first rest).evalWithin s depth = do
      let values ← (first :: rest).mapM (evalWithin s depth)
      return .text (String.join (values.map Value.concatText)) := by
  obtain ⟨formula, hformula⟩ := exists_evalWithin_eq s depth
  obtain ⟨second, rest, rfl⟩ := List.exists_cons_of_ne_nil h
  have hjoin : ∀ (v w : Value) (ws : List Value), (w :: ws).foldl Value.joinedTo v =
      .text (String.join ((v :: w :: ws).map Value.concatText)) := fun v w ws =>
    Value.foldl_joinedTo (List.cons_ne_nil w ws) v
  simp only [hformula, mapM_evalBy, evalBy_concatenation, evalAllBy, bind_assoc, pure_bind, hjoin]

/-- **A call of `CONCAT`** has the texts of the values of its arguments, one after the other. -/
theorem evalWithin_callConcat
    (hcall : ∀ args, s.call Builtin.concat.function args = pure (.text (Builtin.joined args)))
    (depth : Nat) (args : List Expr) :
    (callConcat args).evalWithin s depth = do
      let values ← args.mapM (evalWithin s depth)
      return .text (Builtin.joined values) := by
  obtain ⟨formula, hformula⟩ := exists_evalWithin_eq s depth
  simp only [hformula, mapM_evalBy, callConcat, evalBy, hcall]

end

theorem applyPure_concat (sheet : Sheet) (args : List Value) :
    Builtin.concat.function.applyPure sheet args = .ok (.text (Builtin.joined args)) := rfl

theorem call_concat (library : Library) (setting : Setting) (n : Nat) (args : List Value) :
    Ensemble.call library setting n Builtin.concat.function args =
      pure (.text (Builtin.joined args)) := by
  rw [Ensemble.call, Ensemble.callWithin]
  rfl

theorem mapM_eq_ok_of_forall₂ {es : List Expr} {values : List Value}
    {eval : Expr → Except Error Value}
    (h : List.Forall₂ (fun e v => eval e = .ok v) es values) : es.mapM eval = .ok values := by
  induction h with
  | nil => rfl
  | cons hv _ ih =>
    rw [List.mapM_cons, hv, ih]
    rfl

theorem text_join_eq_iff (values : List Value) :
    Value.text (String.join (values.map Value.concatText)) = .text (Builtin.joined values) ↔
      ∀ v ∈ values, v.isTruth = false := by
  rw [Value.text.injEq, Value.join_concatText_eq_joined_iff]

section

variable {first : Expr} {rest : List Expr} {values : List Value} {depth : Nat}

theorem agree_iff_of_eq_ok {s : Surroundings (Except Error)} (hrest : rest ≠ [])
    (hcall : ∀ args, s.call Builtin.concat.function args = .ok (.text (Builtin.joined args)))
    (hvalues : (first :: rest).mapM (evalWithin s depth) = .ok values) :
    (concatenation first rest).evalWithin s depth =
        .ok (.text (String.join (values.map Value.concatText))) ∧
      (callConcat (first :: rest)).evalWithin s depth = .ok (.text (Builtin.joined values)) ∧
      ((concatenation first rest).evalWithin s depth =
        (callConcat (first :: rest)).evalWithin s depth ↔ ∀ v ∈ values, v.isTruth = false) := by
  have hchain : (concatenation first rest).evalWithin s depth =
      .ok (.text (String.join (values.map Value.concatText))) := by
    rw [evalWithin_concatenation s depth first hrest, hvalues]
    rfl
  have happlied : (callConcat (first :: rest)).evalWithin s depth =
      .ok (.text (Builtin.joined values)) := by
    rw [evalWithin_callConcat s hcall depth, hvalues]
    rfl
  refine ⟨hchain, happlied, ?_⟩
  rw [hchain, happlied, Except.ok.injEq, text_join_eq_iff]

theorem agree_iff_of_run {σ : Type} {s : Surroundings (Stateful σ)} {k k' : σ} (hrest : rest ≠ [])
    (hcall : ∀ args, s.call Builtin.concat.function args = pure (.text (Builtin.joined args)))
    (hvalues : ((first :: rest).mapM (evalWithin s depth)).run k = (.ok values, k')) :
    ((concatenation first rest).evalWithin s depth).run k =
        (.ok (.text (String.join (values.map Value.concatText))), k') ∧
      ((callConcat (first :: rest)).evalWithin s depth).run k =
        (.ok (.text (Builtin.joined values)), k') ∧
      (((concatenation first rest).evalWithin s depth).run k =
        ((callConcat (first :: rest)).evalWithin s depth).run k ↔
          ∀ v ∈ values, v.isTruth = false) := by
  have hchain : ((concatenation first rest).evalWithin s depth).run k =
      (.ok (.text (String.join (values.map Value.concatText))), k') := by
    rw [evalWithin_concatenation s depth first hrest, Stateful.run_bind, hvalues]
    rfl
  have happlied : ((callConcat (first :: rest)).evalWithin s depth).run k =
      (.ok (.text (Builtin.joined values)), k') := by
    rw [evalWithin_callConcat s hcall depth, Stateful.run_bind, hvalues]
    rfl
  refine ⟨hchain, happlied, ?_⟩
  rw [hchain, happlied, Prod.mk.injEq, Except.ok.injEq, text_join_eq_iff]
  exact and_iff_left rfl

end

/-- **The operator and the function agree just where no operand is a truth value.** Two or more
operands that have values have them joined as texts by either, against any bindings and on any
calculator; there the operands are evaluated one after the other, and either way the calculators
are left the same. -/
theorem concatenation_eq_callConcat_iff (first : Expr) {rest : List Expr} (hrest : rest ≠ [])
    (values : List Value) :
    (∀ (sheet : Sheet) (bindings : Mapping),
      List.Forall₂ (fun e v => e.valueAt sheet bindings = .ok v) (first :: rest) values →
      (concatenation first rest).valueAt sheet bindings =
        .ok (.text (String.join (values.map Value.concatText))) ∧
      (callConcat (first :: rest)).valueAt sheet bindings = .ok (.text (Builtin.joined values)) ∧
      ((concatenation first rest).valueAt sheet bindings =
        (callConcat (first :: rest)).valueAt sheet bindings ↔ ∀ v ∈ values, v.isTruth = false)) ∧
    (∀ (library : Library) (setting : Setting) (n depth : Nat) (e e' : Ensemble),
      let eval := evalWithin (Ensemble.surroundings (Ensemble.call library setting n) n) depth
      ((first :: rest).mapM eval).run e = (Except.ok values, e') →
      (eval (concatenation first rest)).run e =
        (Except.ok (.text (String.join (values.map Value.concatText))), e') ∧
      (eval (callConcat (first :: rest))).run e = (Except.ok (.text (Builtin.joined values)), e') ∧
      ((eval (concatenation first rest)).run e = (eval (callConcat (first :: rest))).run e ↔
        ∀ v ∈ values, v.isTruth = false)) := by
  constructor
  · intro sheet bindings hvalues
    exact agree_iff_of_eq_ok hrest (applyPure_concat sheet) (mapM_eq_ok_of_forall₂ hvalues)
  · intro library setting n depth e e' eval hvalues
    exact agree_iff_of_run hrest (call_concat library setting n) hvalues

/-- An evaluation on a calculator that binds nothing, with the builtins only. -/
def evalOnEmpty : Expr → Ensemble.Run Value :=
  evalWithin (Ensemble.surroundings (Ensemble.call (fun _ => none) (Setting.initial .empty) 0) 0) 1

/-- `TRUE & 'x'` is another text than `CONCAT(TRUE, 'x')`. -/
theorem concatenation_true_text :
    let chain := concatenation (.literal (.bool true)) [.literal (.text "x")]
    let call := callConcat [.literal (.bool true), .literal (.text "x")]
    chain.valueAt .empty [] = .ok (.text "Truex") ∧ call.valueAt .empty [] = .ok (.text "TRUEx") ∧
    chain.valueAt .empty [] ≠ call.valueAt .empty [] ∧
    (evalOnEmpty chain).run .empty ≠ (evalOnEmpty call).run .empty := by
  intro chain call
  have h := concatenation_eq_callConcat_iff (.literal (.bool true))
    (List.cons_ne_nil (.literal (.text "x")) []) [.bool true, .text "x"]
  have htruth : ¬ ∀ v ∈ [Value.bool true, .text "x"], v.isTruth = false := by decide
  obtain ⟨hchain, hcall, hiff⟩ := h.1 .empty [] (.cons rfl (.cons rfl .nil))
  obtain ⟨-, -, hiff'⟩ := h.2 (fun _ => none) (Setting.initial .empty) 0 1 .empty .empty rfl
  exact ⟨hchain, hcall, fun heq => htruth (hiff.mp heq), fun heq => htruth (hiff'.mp heq)⟩

end Expr

end Formulary
