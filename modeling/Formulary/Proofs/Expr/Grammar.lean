import Formulary.Expr.Parser

/-!
# The grammar of expressions

The grammar as a relation: which lists of tokens derive which expression at which level
(`Parser.Derives`). It is stated without the parser. Operators that group from the left have the
longer part on the left, `^` has it on the right, and there is at most one comparator. What a minus
makes of its operand is `Parser.Negates`, what a function name makes of its arguments is
`Parser.Applies`; both are functions of the parser as well (`negates_iff`,
`application_eq_ok_iff`).

The relation is over all tokens. Those that the lexer makes are `Token.IsSpelled`: a comparator
among them names an operator, and a function has a name.
-/

namespace Formulary

/-! ### Tokens that the lexer makes -/

/-- Whether a token has the kind and the value of a lexeme, wherever it stands. -/
def Token.IsSpelled (t : Token) : Prop :=
  ∃ options text l, Lexeme.first? options text = some l ∧ l.kind = t.kind ∧ l.value = t.value

/-- Whether all tokens of a list are tokens that the lexer makes. -/
def AreSpelled (tokens : List Token) : Prop := ∀ t ∈ tokens, t.IsSpelled

namespace Lexeme

variable {options : LexerOptions} {text : List Char} {l : Lexeme}

/-- The reader that a lexeme comes from. -/
theorem first?_eq_some (h : first? options text = some l) :
    number? text = some l ∨ quoted? text = some l ∨ name? options text = some l ∨
      sign? text = some l := by
  simp only [first?, Option.or_eq_some_iff] at h
  rcases h with h | ⟨-, h | ⟨-, h | ⟨-, h⟩⟩⟩
  · exact .inl h
  · exact .inr (.inl h)
  · exact .inr (.inr (.inl h))
  · exact .inr (.inr (.inr h))

theorem kind_of_number? (h : number? text = some l) : l.kind = .number := by
  obtain ⟨numeral, -, rfl⟩ := Option.map_eq_some_iff.mp h
  rfl

theorem kind_of_quoted? (h : quoted? text = some l) : l.kind = .string := by
  unfold quoted? at h
  split at h
  · split at h
    · obtain ⟨p, -, rfl⟩ := Option.map_eq_some_iff.mp h
      rfl
    · cases h
  · cases h

/-- A name stands for a truth value, or for a function or identifier with a text. -/
theorem kind_nameToken (options : LexerOptions) (spelling : List Char) (opens : Bool) :
    (nameToken options spelling opens).1 = .boolean ∧
        (∃ b, (nameToken options spelling opens).2 = .bool b) ∨
      ((nameToken options spelling opens).1 = .function ∨
          (nameToken options spelling opens).1 = .identifier) ∧
        ∃ s, (nameToken options spelling opens).2 = .text s := by
  rw [nameToken]
  split
  · exact .inr ⟨.inl rfl, _, rfl⟩
  · split
    · exact .inl ⟨rfl, _, rfl⟩
    · exact .inr ⟨.inr rfl, _, rfl⟩

theorem kind_of_name? (h : name? options text = some l) :
    l.kind = .boolean ∧ (∃ b, l.value = .bool b) ∨
      (l.kind = .function ∨ l.kind = .identifier) ∧ ∃ s, l.value = .text s := by
  unfold name? at h
  split at h
  · cases h
  · split at h
    · cases h
      exact kind_nameToken options _ _
    · cases h

/-- A sign is a comparison that names an operator, an operator or punctuation. -/
theorem kind_of_sign? (h : sign? text = some l) : ∃ s, l.value = .text s ∧
    ((l.kind = .comparator ∧ ∃ op : Operator, s = op.symbol) ∨ l.kind = .operator ∨
      l.kind = .leftParen ∨ l.kind = .rightParen ∨ l.kind = .comma) := by
  unfold sign? at h
  split at h <;> simp only [Option.some.injEq, reduceCtorEq] at h <;> subst h
  case h_1 | h_2 | h_3 => exact ⟨_, rfl, by simp [sign]⟩
  case h_4 => exact ⟨_, rfl, .inl ⟨rfl, .le, rfl⟩⟩
  case h_5 => exact ⟨_, rfl, .inl ⟨rfl, .ge, rfl⟩⟩
  case h_6 | h_7 => exact ⟨_, rfl, .inl ⟨rfl, .ne, rfl⟩⟩
  case h_8 | h_9 => exact ⟨_, rfl, .inl ⟨rfl, .eq, rfl⟩⟩
  case h_10 => exact ⟨_, rfl, .inl ⟨rfl, .lt, rfl⟩⟩
  case h_11 => exact ⟨_, rfl, .inl ⟨rfl, .gt, rfl⟩⟩
  all_goals exact ⟨_, rfl, .inr (.inl rfl)⟩

end Lexeme

namespace Token.IsSpelled

variable {t : Token}

/-- A comparator names an operator. -/
theorem exists_symbol (h : t.IsSpelled) (hkind : t.kind = .comparator) :
    ∃ op : Operator, t.value.text? = some op.symbol := by
  obtain ⟨options, text, l, hl, hlk, hlv⟩ := h
  rw [← hlk] at hkind
  rw [← hlv]
  rcases Lexeme.first?_eq_some hl with hl | hl | hl | hl
  · rw [Lexeme.kind_of_number? hl] at hkind
    cases hkind
  · rw [Lexeme.kind_of_quoted? hl] at hkind
    cases hkind
  · rcases Lexeme.kind_of_name? hl with ⟨hk, -⟩ | ⟨hk | hk, -⟩ <;> rw [hk] at hkind <;> cases hkind
  · obtain ⟨s, hs, ⟨-, op, rfl⟩ | hk⟩ := Lexeme.kind_of_sign? hl
    · exact ⟨op, by rw [hs]; rfl⟩
    · rw [hkind] at hk
      simp at hk

/-- An identifier and a function have a text. -/
theorem exists_text (h : t.IsSpelled) (hkind : t.kind = .function ∨ t.kind = .identifier) :
    ∃ name, t.value.text? = some name := by
  obtain ⟨options, text, l, hl, hlk, hlv⟩ := h
  rw [← hlk] at hkind
  rw [← hlv]
  rcases Lexeme.first?_eq_some hl with hl | hl | hl | hl
  · simp [Lexeme.kind_of_number? hl] at hkind
  · simp [Lexeme.kind_of_quoted? hl] at hkind
  · rcases Lexeme.kind_of_name? hl with ⟨hk, -⟩ | ⟨-, s, hs⟩
    · simp [hk] at hkind
    · exact ⟨s, by rw [hs]; rfl⟩
  · obtain ⟨s, hs, -⟩ := Lexeme.kind_of_sign? hl
    exact ⟨s, by rw [hs]; rfl⟩

/-- A function has a name. -/
theorem exists_name (h : t.IsSpelled) (hkind : t.kind = .function) :
    ∃ name, t.value.text? = some name :=
  h.exists_text (.inl hkind)

end Token.IsSpelled

/-- The lexer makes tokens that it makes. -/
theorem Token.areSpelled_scanFrom {options : LexerOptions} {whole : String} {position : Nat}
    {text : List Char} {tokens : List Token}
    (h : scanFrom options whole position text = .ok tokens) : AreSpelled tokens := by
  fun_induction scanFrom options whole position text generalizing tokens with
  | case1 =>
    obtain rfl := Except.ok.inj h
    simp [AreSpelled]
  | case2 position c rest hblank ih => exact ih h
  | case3 => cases h
  | case4 position c rest hblank l hl ih =>
    rcases hrest : scanFrom options whole (position + l.spelling.length)
      ((c :: rest).drop l.spelling.length) with e | others
    · rw [hrest] at h
      cases h
    · rw [hrest] at h
      obtain rfl := Except.ok.inj h
      intro t ht
      rcases List.mem_cons.mp ht with rfl | ht
      · exact ⟨options, _, l, hl, rfl, rfl⟩
      · exact ih hrest t ht

/-! ### Operators -/

theorem Operator.symbol_inj {op other : Operator} (h : op.symbol = other.symbol) : op = other := by
  have := ofSymbol?_symbol op
  rw [h, ofSymbol?_symbol] at this
  exact (Option.some.inj this).symm

theorem Operator.ofValue_eq_ok_iff {v : Value} {op : Operator} :
    ofValue v = .ok op ↔ v.text? = some op.symbol := by
  rw [ofValue]
  constructor
  · intro h
    rcases htext : v.text? with - | s
    · rw [htext] at h
      cases h
    · rcases hs : ofSymbol? s with - | found
      · simp only [htext, Option.bind_some, hs] at h
        cases h
      · simp only [htext, Option.bind_some, hs] at h
        obtain rfl := Except.ok.inj h
        have hfound := List.find?_some hs
        rw [beq_iff_eq] at hfound
        rw [hfound]
  · intro h
    rw [h, Option.bind_some, ofSymbol?_symbol]
    rfl

namespace Parser

/-- Whether a token is an operator. -/
def IsOperator (op : Operator) (t : Token) : Prop :=
  t.kind = .operator ∧ t.value.text? = some op.symbol

theorem operatorAmong_eq_some_iff {operators : List Operator} {t : Token} {op : Operator} :
    operatorAmong operators t = some op ↔ op ∈ operators ∧ IsOperator op t := by
  rw [operatorAmong, textOf?, Option.bind_eq_some_iff]
  constructor
  · rintro ⟨s, hs, hfind⟩
    split at hs
    · next hkind =>
      have hsymbol := List.find?_some hfind
      rw [beq_iff_eq] at hsymbol
      exact ⟨List.mem_of_find?_eq_some hfind, hkind, hsymbol ▸ hs⟩
    · cases hs
  · rintro ⟨hmem, hkind, htext⟩
    refine ⟨op.symbol, by rw [if_pos hkind, htext], ?_⟩
    rcases hfind : operators.find? (·.symbol == op.symbol) with - | found
    · exact absurd (beq_self_eq_true op.symbol) (List.find?_eq_none.mp hfind op hmem)
    · have hfound := List.find?_some hfind
      rw [beq_iff_eq] at hfound
      obtain rfl := Operator.symbol_inj hfound
      exact hfind

/-! ### The rules -/

/-- The levels of the grammar, loosest first. -/
inductive Level
  | comparison | additive | multiplicative | power | signed | primary

/-- What a minus makes of its operand: a literal number or truth value with its sign changed, if
signs are folded, and else a negation. -/
inductive Negates (options : ParserOptions) : Expr → Expr → Prop
  | folded {v : Value} {a : Number} (hfolds : options.foldsSigns = true)
    (hv : v.number? = some a) : Negates options (.literal v) (.literal (.ofNumber a.neg))
  | kept {e : Expr} (h : ∀ v, e = .literal v → options.foldsSigns = true → v.number? = none) :
    Negates options e (.negation e)

/-- What the name of a function makes of its arguments. `IF` has two or three of them, and where the
third one is missing it is the literal false; every other function is known and accepts as many. -/
inductive Applies (options : ParserOptions) : String → List Expr → Expr → Prop
  | choice (c t e : Expr) : Applies options "IF" [c, t, e] (.choice c t e)
  | choiceOrFalse (c t : Expr) :
    Applies options "IF" [c, t] (.choice c t (.literal (.bool false)))
  | call {name : String} {args : List Expr} {f : Function} (hname : name ≠ "IF")
    (hf : options.find? name = some f) (haccepts : f.accepts args.length = true) :
    Applies options name args (.call f args)

mutual

/-- Which tokens derive which expression at which level of the grammar. -/
inductive Derives (options : ParserOptions) : Level → List Token → Expr → Prop
  | additive {ts : List Token} {e : Expr} (h : Derives options .additive ts e) :
    Derives options .comparison ts e
  | compare {ts ts' : List Token} {t : Token} {l r : Expr} {op : Operator}
    (hl : Derives options .additive ts l) (hkind : t.kind = .comparator)
    (hop : t.value.text? = some op.symbol) (hr : Derives options .additive ts' r) :
    Derives options .comparison (ts ++ t :: ts') (.binary op l r)
  | multiplicative {ts : List Token} {e : Expr} (h : Derives options .multiplicative ts e) :
    Derives options .additive ts e
  | add {ts ts' : List Token} {t : Token} {l r : Expr} {op : Operator}
    (hl : Derives options .additive ts l) (hop : op ∈ [Operator.add, .sub, .concat])
    (ht : IsOperator op t) (hr : Derives options .multiplicative ts' r) :
    Derives options .additive (ts ++ t :: ts') (.binary op l r)
  | power {ts : List Token} {e : Expr} (h : Derives options .power ts e) :
    Derives options .multiplicative ts e
  | multiply {ts ts' : List Token} {t : Token} {l r : Expr} {op : Operator}
    (hl : Derives options .multiplicative ts l) (hop : op ∈ [Operator.mul, .div, .mod])
    (ht : IsOperator op t) (hr : Derives options .power ts' r) :
    Derives options .multiplicative (ts ++ t :: ts') (.binary op l r)
  | signed {ts : List Token} {e : Expr} (h : Derives options .signed ts e) :
    Derives options .power ts e
  | raise {ts ts' : List Token} {t : Token} {l r : Expr} (hl : Derives options .signed ts l)
    (ht : IsOperator .pow t) (hr : Derives options .power ts' r) :
    Derives options .power (ts ++ t :: ts') (.binary .pow l r)
  | primary {ts : List Token} {e : Expr} (h : Derives options .primary ts e) :
    Derives options .signed ts e
  | plus {ts : List Token} {t : Token} {e : Expr} (ht : IsOperator .add t)
    (h : Derives options .signed ts e) : Derives options .signed (t :: ts) e
  | minus {ts : List Token} {t : Token} {e e' : Expr} (ht : IsOperator .sub t)
    (h : Derives options .signed ts e) (hneg : Negates options e e') :
    Derives options .signed (t :: ts) e'
  | literal {t : Token} (hkind : t.kind = .number ∨ t.kind = .string ∨ t.kind = .boolean) :
    Derives options .primary [t] (.literal t.value)
  | identifier {t : Token} (hkind : t.kind = .identifier) :
    Derives options .primary [t] (reference t.value)
  | group {ts : List Token} {l r : Token} {e : Expr} (hl : l.kind = .leftParen)
    (h : Derives options .comparison ts e) (hr : r.kind = .rightParen) :
    Derives options .primary (l :: (ts ++ [r])) e
  | callEmpty {f l r : Token} {name : String} {e : Expr} (hf : f.kind = .function)
    (hname : f.value.text? = some name) (hl : l.kind = .leftParen) (hr : r.kind = .rightParen)
    (happly : Applies options name [] e) : Derives options .primary [f, l, r] e
  | call {ts : List Token} {f l r : Token} {name : String} {args : List Expr} {e : Expr}
    (hf : f.kind = .function) (hname : f.value.text? = some name) (hl : l.kind = .leftParen)
    (hargs : DerivesAll options ts args) (hr : r.kind = .rightParen)
    (happly : Applies options name args e) : Derives options .primary (f :: l :: (ts ++ [r])) e

/-- Which tokens derive which expressions with a comma between each two. -/
inductive DerivesAll (options : ParserOptions) : List Token → List Expr → Prop
  | last {ts : List Token} {e : Expr} (h : Derives options .comparison ts e) :
    DerivesAll options ts [e]
  | next {ts ts' : List Token} {t : Token} {e : Expr} {es : List Expr}
    (h : Derives options .comparison ts e) (ht : t.kind = .comma)
    (hs : DerivesAll options ts' es) : DerivesAll options (ts ++ t :: ts') (e :: es)

end

variable {options : ParserOptions}

/-- No expression is derived from nothing. -/
theorem Derives.length_pos {level : Level} {ts : List Token} {e : Expr} :
    Derives options level ts e → 0 < ts.length
  | .additive h | .multiplicative h | .power h | .signed h | .primary h => length_pos h
  | .compare hl .. | .add hl .. | .multiply hl .. | .raise hl .. => by
    have := length_pos hl
    rw [List.length_append]
    omega
  | .plus .. | .minus .. | .literal _ | .identifier _ | .group .. | .callEmpty .. | .call .. => by
    simp

/-- What is derived as a primary expression is derived at every level. -/
theorem Derives.comparison_of_primary {ts : List Token} {e : Expr}
    (h : Derives options .primary ts e) : Derives options .comparison ts e :=
  .additive (.multiplicative (.power (.signed (.primary h))))

/-! ### The rules as functions -/

theorem negates_iff {e e' : Expr} : Negates options e e' ↔ e' = negated options.foldsSigns e := by
  constructor
  · rintro (⟨hfolds, hv⟩ | h)
    · simp [negated, hfolds, hv]
    · cases e with
      | literal v =>
        rcases hfolds : options.foldsSigns with - | -
        · simp [negated]
        · simp [negated, h v rfl hfolds]
      | _ => rfl
  · rintro rfl
    cases e with
    | literal v =>
      rcases hfolds : options.foldsSigns with - | -
      · simp only [negated, Bool.false_eq_true, if_false]
        exact .kept fun w _ h => by rw [hfolds] at h; cases h
      · rcases hv : v.number? with - | a
        · simp only [negated, if_true, hv]
          refine .kept fun w hw _ => ?_
          obtain rfl := Expr.literal.inj hw
          exact hv
        · simp only [negated, if_true, hv]
          exact .folded hfolds hv
    | _ => exact .kept fun w hw => by cases hw

theorem application_eq_ok_iff {name : String} {args : List Expr} {e : Expr} :
    application options name args = .ok e ↔ Applies options name args e := by
  constructor
  · intro h
    unfold application at h
    split at h
    · next hname =>
      subst hname
      split at h
      · obtain rfl := Except.ok.inj h
        exact .choiceOrFalse _ _
      · obtain rfl := Except.ok.inj h
        exact .choice _ _ _
      · cases h
    · next hname =>
      split at h
      · cases h
      · next f hf =>
        split at h
        · next haccepts =>
          obtain rfl := Except.ok.inj h
          exact .call hname hf haccepts
        · cases h
  · intro h
    cases h with
    | choice c t e => rfl
    | choiceOrFalse c t => rfl
    | call hname hf haccepts => simp [application, hname, hf, haccepts, pure, Except.pure]

/-- Where a name makes nothing of its arguments, this is a fault of the expression. -/
theorem exists_fault_of_application {name : String} {args : List Expr} {fault : Error}
    (h : application options name args = .error fault) : ∃ f, fault = .parse f := by
  unfold application at h
  split at h
  · split at h
    · cases h
    · cases h
    · obtain rfl := Except.error.inj h
      exact ⟨_, rfl⟩
  · split at h
    · obtain rfl := Except.error.inj h
      exact ⟨_, rfl⟩
    · split at h
      · cases h
      · obtain rfl := Except.error.inj h
        exact ⟨_, rfl⟩

end Parser

end Formulary
