import Formulary.Proofs.Expr.Completeness
import Mathlib.Data.List.Forall2

/-!
# The calls that a text spells

The tokens of a text say which functions it calls and in which order (`Token.calledNames`); `IF` is
the name of no function. Where they derive an expression, its calls are theirs, one by one: each is
a call of the function that its name means to the parser, with a number of arguments that the
function accepts (`Expr.answered_of_ofText`).

So what a parser makes of a text depends on the meaning of these names only: another one for which
they mean the same makes the same of it (`Expr.ofText_of_agree`). Both are inductions over the
derivation.
-/

namespace Formulary

/-! ### Called names and calls -/

/-- The name of the function that a token calls. -/
def Token.calledName? (t : Token) : Option String :=
  if t.kind = .function then t.value.text?.filter (· ≠ "IF") else none

/-- The names of the functions that tokens call, in order. -/
def Token.calledNames (tokens : List Token) : List String := tokens.filterMap Token.calledName?

mutual

/-- The calls in a tree, each with its number of arguments, in the order in which they are written.
Trees that it has as literals do not count, nor do nodes from outside. -/
def Expr.calls : Expr → List (Function × Nat)
  | .literal _ | .identifier _ | .keyed _ | .given .. | .asking .. => []
  | .negation e => e.calls
  | .binary _ l r => l.calls ++ r.calls
  | .call f args => (f, args.length) :: Expr.allCalls args
  | .choice c t e => c.calls ++ (t.calls ++ e.calls)

/-- The calls in several trees. -/
def Expr.allCalls : List Expr → List (Function × Nat)
  | [] => []
  | e :: es => e.calls ++ Expr.allCalls es

end

/-- Whether a call is one of the function that a name means, with arguments that it accepts. -/
def Answers (find? : String → Option Function) (name : String) (call : Function × Nat) : Prop :=
  find? name = some call.1 ∧ call.1.accepts call.2 = true

namespace Token

theorem calledNames_append (ts ts' : List Token) :
    calledNames (ts ++ ts') = calledNames ts ++ calledNames ts' :=
  List.filterMap_append

theorem calledNames_cons {t : Token} (h : t.kind ≠ .function) (ts : List Token) :
    calledNames (t :: ts) = calledNames ts := by
  rw [calledNames, List.filterMap_cons, calledName?, if_neg h]
  rfl

/-- A function in front of arguments in parentheses is called before the functions in these. -/
theorem calledNames_call {f l r : Token} {name : String} (hf : f.kind = .function)
    (hname : f.value.text? = some name) (hl : l.kind = .leftParen) (hr : r.kind = .rightParen)
    (ts : List Token) : calledNames (f :: l :: (ts ++ [r])) =
      if name = "IF" then calledNames ts else name :: calledNames ts := by
  have hinner : calledNames (l :: (ts ++ [r])) = calledNames ts := by
    rw [calledNames_cons (by simp [hl]), calledNames_append, calledNames_cons (by simp [hr])]
    exact List.append_nil _
  have hcalled : f.calledName? = if name = "IF" then none else some name := by
    rw [calledName?, if_pos hf, hname]
    split
    · next h => simp [h]
    · next h => simp [h]
  rw [calledNames, List.filterMap_cons, hcalled]
  by_cases h : name = "IF"
  · simp only [if_pos h]
    exact hinner
  · simp only [if_neg h]
    exact congrArg (name :: ·) hinner

end Token

namespace Parser

open Token (calledNames calledNames_append calledNames_cons calledNames_call)

variable {options options' : ParserOptions}

theorem IsOperator.kind_ne {op : Operator} {t : Token} (h : IsOperator op t) :
    t.kind ≠ .function := by
  rw [h.1]
  simp

/-! ### Calls are answered -/

/-- A minus adds no calls and takes none away. -/
theorem Negates.calls {e e' : Expr} (h : Negates options e e') : e'.calls = e.calls := by
  cases h with
  | folded => simp [Expr.calls]
  | kept => rw [Expr.calls]

/-- An application calls its function, unless it is a choice, before those of its arguments. -/
theorem Applies.answered {name : String} {args : List Expr} {e : Expr}
    (h : Applies options name args e) {names : List String}
    (hargs : List.Forall₂ (Answers options.find?) names (Expr.allCalls args)) :
    List.Forall₂ (Answers options.find?) (if name = "IF" then names else name :: names) e.calls := by
  cases h with
  | choice => simpa [Expr.calls, Expr.allCalls] using hargs
  | choiceOrFalse => simpa [Expr.calls, Expr.allCalls] using hargs
  | call hname hf haccepts =>
    rw [if_neg hname, Expr.calls]
    exact .cons ⟨hf, haccepts⟩ hargs

mutual

/-- **The calls of what is derived answer the names that its tokens call.** -/
theorem Derives.answered {level : Level} {ts : List Token} {e : Expr} :
    Derives options level ts e → List.Forall₂ (Answers options.find?) (calledNames ts) e.calls
  | .additive h | .multiplicative h | .power h | .signed h | .primary h => h.answered
  | .compare hl hkind _ hr => by
    rw [calledNames_append, calledNames_cons (by simp [hkind]), Expr.calls]
    exact List.rel_append hl.answered hr.answered
  | .add hl _ ht hr | .multiply hl _ ht hr | .raise hl ht hr => by
    rw [calledNames_append, calledNames_cons ht.kind_ne, Expr.calls]
    exact List.rel_append hl.answered hr.answered
  | .plus ht h => by
    rw [calledNames_cons ht.kind_ne]
    exact h.answered
  | .minus ht h hneg => by
    rw [calledNames_cons ht.kind_ne, hneg.calls]
    exact h.answered
  | .literal hkind => by
    rw [calledNames_cons (by rcases hkind with h | h | h <;> simp [h]), Expr.calls]
    exact .nil
  | .identifier hkind => by
    rw [calledNames_cons (by simp [hkind]), reference]
    split
    · rw [Expr.calls]
      exact .nil
    · rw [Expr.calls]
      exact .nil
  | .group hl h hr => by
    rw [calledNames_cons (by simp [hl]), calledNames_append, calledNames_cons (by simp [hr])]
    exact (List.append_nil (calledNames _)).symm ▸ h.answered
  | .callEmpty hf hname hl hr happly => by
    rw [← List.nil_append [_], calledNames_call hf hname hl hr]
    exact happly.answered .nil
  | .call hf hname hl hargs hr happly => by
    rw [calledNames_call hf hname hl hr]
    exact happly.answered hargs.answered

theorem DerivesAll.answered {ts : List Token} {es : List Expr} :
    DerivesAll options ts es →
      List.Forall₂ (Answers options.find?) (calledNames ts) (Expr.allCalls es)
  | .last h => by
    rw [Expr.allCalls, Expr.allCalls, List.append_nil]
    exact h.answered
  | .next h ht hs => by
    rw [calledNames_append, calledNames_cons (by simp [ht]), Expr.allCalls]
    exact List.rel_append h.answered hs.answered

end

/-! ### Only called names matter -/

/-- Whether two parsers fold signs alike and take some names for the same functions. -/
structure AgreeOn (options options' : ParserOptions) (names : List String) : Prop where
  foldsSigns : options'.foldsSigns = options.foldsSigns
  find? : ∀ name ∈ names, options'.find? name = options.find? name

theorem AgreeOn.mono {names names' : List String} (h : AgreeOn options options' names')
    (hsub : names ⊆ names') : AgreeOn options options' names :=
  ⟨h.foldsSigns, fun name hname => h.find? name (hsub hname)⟩

theorem Negates.of_agree {names : List String} {e e' : Expr} (h : Negates options e e')
    (hagree : AgreeOn options options' names) : Negates options' e e' := by
  cases h with
  | folded hfolds hv => exact .folded (hagree.foldsSigns.trans hfolds) hv
  | kept hkept => exact .kept fun v hv hfolds => hkept v hv (hagree.foldsSigns ▸ hfolds)

theorem Applies.of_agree {name : String} {args : List Expr} {e : Expr}
    (h : Applies options name args e) {names : List String}
    (hagree : AgreeOn options options' (if name = "IF" then names else name :: names)) :
    Applies options' name args e := by
  cases h with
  | choice c t e => exact .choice c t e
  | choiceOrFalse c t => exact .choiceOrFalse c t
  | call hname hf haccepts =>
    rw [if_neg hname] at hagree
    exact .call hname ((hagree.find? _ List.mem_cons_self).trans hf) haccepts

mutual

/-- What is derived for one parser is derived for another one that agrees on the called names. -/
theorem Derives.of_agree {level : Level} {ts : List Token} {e : Expr} :
    Derives options level ts e → AgreeOn options options' (calledNames ts) →
      Derives options' level ts e
  | .additive h, hagree => .additive (h.of_agree hagree)
  | .multiplicative h, hagree => .multiplicative (h.of_agree hagree)
  | .power h, hagree => .power (h.of_agree hagree)
  | .signed h, hagree => .signed (h.of_agree hagree)
  | .primary h, hagree => .primary (h.of_agree hagree)
  | .compare hl hkind hop hr, hagree => by
    rw [calledNames_append, calledNames_cons (by simp [hkind])] at hagree
    exact .compare (hl.of_agree (hagree.mono (List.subset_append_left _ _))) hkind hop
      (hr.of_agree (hagree.mono (List.subset_append_right _ _)))
  | .add hl hop ht hr, hagree => by
    rw [calledNames_append, calledNames_cons ht.kind_ne] at hagree
    exact .add (hl.of_agree (hagree.mono (List.subset_append_left _ _))) hop ht
      (hr.of_agree (hagree.mono (List.subset_append_right _ _)))
  | .multiply hl hop ht hr, hagree => by
    rw [calledNames_append, calledNames_cons ht.kind_ne] at hagree
    exact .multiply (hl.of_agree (hagree.mono (List.subset_append_left _ _))) hop ht
      (hr.of_agree (hagree.mono (List.subset_append_right _ _)))
  | .raise hl ht hr, hagree => by
    rw [calledNames_append, calledNames_cons ht.kind_ne] at hagree
    exact .raise (hl.of_agree (hagree.mono (List.subset_append_left _ _))) ht
      (hr.of_agree (hagree.mono (List.subset_append_right _ _)))
  | .plus ht h, hagree => .plus ht (h.of_agree (by rwa [calledNames_cons ht.kind_ne] at hagree))
  | .minus ht h hneg, hagree =>
    .minus ht (h.of_agree (by rwa [calledNames_cons ht.kind_ne] at hagree)) (hneg.of_agree hagree)
  | .literal hkind, _ => .literal hkind
  | .identifier hkind, _ => .identifier hkind
  | .group hl h hr, hagree => by
    rw [calledNames_cons (by simp [hl]), calledNames_append] at hagree
    exact .group hl (h.of_agree (hagree.mono (List.subset_append_left _ _))) hr
  -- only the two calls ask for a function by its name
  | .callEmpty hf hname hl hr happly, hagree => by
    rw [← List.nil_append [_], calledNames_call hf hname hl hr] at hagree
    exact .callEmpty hf hname hl hr (happly.of_agree hagree)
  | .call hf hname hl hargs hr happly, hagree => by
    rw [calledNames_call hf hname hl hr] at hagree
    refine .call hf hname hl (hargs.of_agree (hagree.mono ?_)) hr (happly.of_agree hagree)
    split
    · exact List.Subset.refl _
    · exact List.subset_cons_self _ _

theorem DerivesAll.of_agree {ts : List Token} {es : List Expr} :
    DerivesAll options ts es → AgreeOn options options' (calledNames ts) →
      DerivesAll options' ts es
  | .last h, hagree => .last (h.of_agree hagree)
  | .next h ht hs, hagree => by
    rw [calledNames_append, calledNames_cons (by simp [ht])] at hagree
    exact .next (h.of_agree (hagree.mono (List.subset_append_left _ _))) ht
      (hs.of_agree (hagree.mono (List.subset_append_right _ _)))

end

end Parser

/-! ### Texts -/

namespace Expr

variable {lexer : LexerOptions} {parser parser' : ParserOptions} {text : String} {e : Expr}

/-- **The calls of what a text spells answer the names that the text calls**, one by one. -/
theorem answered_of_ofText (h : ofText lexer parser text = .ok e) :
    ∃ tokens, Token.scan lexer text = .ok tokens ∧
      List.Forall₂ (Answers parser.find?) (Token.calledNames tokens) e.calls := by
  obtain ⟨tokens, hscan, htokens⟩ := exists_scan_of_ofText h
  exact ⟨tokens, hscan, (derives_of_ofTokens htokens).answered⟩

/-- What a text spells it spells for every parser to which the names that it calls mean the same. -/
theorem ofText_of_agree (h : ofText lexer parser text = .ok e) {tokens : List Token}
    (hscan : Token.scan lexer text = .ok tokens)
    (hagree : Parser.AgreeOn parser parser' (Token.calledNames tokens)) :
    ofText lexer parser' text = .ok e := by
  obtain ⟨found, hfound, htokens⟩ := exists_scan_of_ofText h
  obtain rfl := Except.ok.inj (hscan.symm.trans hfound)
  have hderives := (derives_of_ofTokens htokens).of_agree hagree
  rw [ofText, hscan]
  exact ofTokens_of_derives hderives

end Expr

end Formulary
