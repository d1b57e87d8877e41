import Formulary.Proofs.Expr.Parser
import Mathlib

/-!
# What is derived is parsed

The parser takes the first tokens that derive an expression at one of its levels, as long as the
tokens after them do not go on with this level (`Parser.Derives.accepts`). The levels that group
from the left are read by a loop that has the part read so far, so for them the claim is about the
loop: it comes to where it would have come to from the whole of what is derived.

With what the parser gives being derived, it accepts exactly the grammar, and the grammar is
unambiguous (`Expr.ofTokens_iff_derives`).
-/

namespace Formulary

namespace Parser

variable {options : ParserOptions}

/-! ### Where a level stops -/

/-- The operators that join expressions at a level or a tighter one. -/
def Level.operators : Level → List Operator
  | .comparison | .additive => [.add, .sub, .concat, .mul, .div, .mod, .pow]
  | .multiplicative => [.mul, .div, .mod, .pow]
  | .power => [.pow]
  | .signed | .primary => []

/-- Whether tokens do not go on with an expression of a level. -/
def Stops (level : Level) (rest : List Token) : Prop :=
  ∀ t, rest.head? = some t →
    (∀ op ∈ level.operators, ¬ IsOperator op t) ∧ (level = .comparison → t.kind ≠ .comparator)

theorem stops_nil (level : Level) : Stops level [] := nofun

theorem stops_of_kind {level : Level} {t : Token} {rest : List Token}
    (hoperator : t.kind ≠ .operator) (hcomparator : level = .comparison → t.kind ≠ .comparator) :
    Stops level (t :: rest) := by
  rintro t' ht'
  obtain rfl := Option.some.inj ht'
  exact ⟨fun op _ h => hoperator h.1, hcomparator⟩

theorem stops_of_isOperator {level : Level} {t : Token} {rest : List Token} {op : Operator}
    (ht : IsOperator op t) (h : op ∉ level.operators) : Stops level (t :: rest) := by
  rintro t' ht'
  obtain rfl := Option.some.inj ht'
  refine ⟨fun other hmem hother => ?_, fun _ hkind => ?_⟩
  · have hsame := ht.2.symm.trans hother.2
    exact h (Operator.symbol_inj (Option.some.inj hsame) ▸ hmem)
  · rw [ht.1] at hkind
    cases hkind

theorem Stops.mono {level level' : Level} {rest : List Token} (h : Stops level rest)
    (hsub : level'.operators ⊆ level.operators)
    (hcomparison : level' = .comparison → level = .comparison) : Stops level' rest :=
  fun t ht => ⟨fun op hop => (h t ht).1 op (hsub hop), fun hl => (h t ht).2 (hcomparison hl)⟩

theorem Stops.operatorAmong {level : Level} {t : Token} {rest : List Token}
    (h : Stops level (t :: rest)) {operators : List Operator}
    (hsub : operators ⊆ level.operators) : operatorAmong operators t = none := by
  rcases hfound : Parser.operatorAmong operators t with - | op
  · rfl
  · obtain ⟨hmem, ht⟩ := operatorAmong_eq_some_iff.mp hfound
    exact absurd ht ((h t rfl).1 op (hsub hmem))

theorem additiveTail_of_stops {rest : List Token} (h : Stops .additive rest) (e : Expr)
    {bound : Nat} (hbound : 1 ≤ bound) : additiveTail options bound e rest = .ok (e, rest) := by
  obtain ⟨bound, rfl⟩ := Nat.exists_eq_add_of_le' hbound
  cases rest with
  | nil => rfl
  | cons t rest =>
    rw [additiveTail, h.operatorAmong (by simp [additiveOperators, Level.operators])]
    rfl

theorem multiplicativeTail_of_stops {rest : List Token} (h : Stops .multiplicative rest) (e : Expr)
    {bound : Nat} (hbound : 1 ≤ bound) :
    multiplicativeTail options bound e rest = .ok (e, rest) := by
  obtain ⟨bound, rfl⟩ := Nat.exists_eq_add_of_le' hbound
  cases rest with
  | nil => rfl
  | cons t rest =>
    rw [multiplicativeTail, h.operatorAmong (by simp [multiplicativeOperators, Level.operators])]
    rfl

/-! ### Accepting -/

/-- Whether the parser takes tokens as an expression of a level, with every bound that allows for
their number and for what the level costs. Where the level is a loop, it is asked where the loop
comes to. -/
def Accepts (options : ParserOptions) : Level → List Token → Expr → Prop
  | .comparison, ts, e => ∀ rest, Stops .comparison rest → ∀ bound, 8 * ts.length + 8 ≤ bound →
    comparison options bound (ts ++ rest) = .ok (e, rest)
  | .additive, ts, e => ∀ rest least result, Stops .multiplicative rest →
    (∀ bound, least ≤ bound → additiveTail options bound e rest = .ok result) →
    ∀ bound, least + 8 * ts.length + 6 ≤ bound → additive options bound (ts ++ rest) = .ok result
  | .multiplicative, ts, e => ∀ rest least result, Stops .power rest →
    (∀ bound, least ≤ bound → multiplicativeTail options bound e rest = .ok result) →
    ∀ bound, least + 8 * ts.length + 4 ≤ bound →
      multiplicative options bound (ts ++ rest) = .ok result
  | .power, ts, e => ∀ rest, Stops .power rest → ∀ bound, 8 * ts.length + 3 ≤ bound →
    power options bound (ts ++ rest) = .ok (e, rest)
  | .signed, ts, e => ∀ rest bound, 8 * ts.length + 2 ≤ bound →
    signed options bound (ts ++ rest) = .ok (e, rest)
  | .primary, ts, e => ∀ rest bound, 8 * ts.length + 1 ≤ bound →
    primary options bound (ts ++ rest) = .ok (e, rest)

/-- Whether the parser takes tokens up to a closing parenthesis as arguments. -/
def AcceptsAll (options : ParserOptions) (ts : List Token) (args : List Expr) : Prop :=
  ∀ r rest, r.kind = .rightParen → ∀ bound, 8 * ts.length + 9 ≤ bound →
    argumentList options bound (ts ++ r :: rest) = .ok (args, rest)

section

variable {ts ts' rest : List Token} {t : Token} {l r e : Expr}

theorem Accepts.additive (h : Accepts options .additive ts e) (hrest : Stops .additive rest)
    {bound : Nat} (hbound : 8 * ts.length + 7 ≤ bound) :
    additive options bound (ts ++ rest) = .ok (e, rest) :=
  h rest 1 (e, rest) (hrest.mono (by simp [Level.operators]) (by simp))
    (fun _ => additiveTail_of_stops hrest e) bound (by omega)

theorem Accepts.multiplicative (h : Accepts options .multiplicative ts e)
    (hrest : Stops .multiplicative rest) {bound : Nat} (hbound : 8 * ts.length + 5 ≤ bound) :
    multiplicative options bound (ts ++ rest) = .ok (e, rest) :=
  h rest 1 (e, rest) (hrest.mono (by simp [Level.operators]) (by simp))
    (fun _ => multiplicativeTail_of_stops hrest e) bound (by omega)

theorem accepts_comparison (h : Accepts options .additive ts e) :
    Accepts options .comparison ts e := by
  intro rest hrest bound hbound
  obtain ⟨bound, rfl⟩ := Nat.exists_eq_add_of_le' (Nat.one_le_of_lt hbound)
  rw [comparison, h.additive (hrest.mono (by simp [Level.operators]) (by simp)) (by omega)]
  cases rest with
  | nil => rfl
  | cons t rest =>
    show (if t.kind = .comparator then _ else _) = _
    rw [if_neg ((hrest t rfl).2 rfl)]
    rfl

theorem accepts_compare {op : Operator} (hl : Accepts options .additive ts l)
    (hkind : t.kind = .comparator) (hop : t.value.text? = some op.symbol)
    (hr : Accepts options .additive ts' r) :
    Accepts options .comparison (ts ++ t :: ts') (.binary op l r) := by
  intro rest hrest bound hbound
  obtain ⟨bound, rfl⟩ := Nat.exists_eq_add_of_le' (Nat.one_le_of_lt hbound)
  rw [List.length_append, List.length_cons] at hbound
  have hstop : Stops .additive (t :: (ts' ++ rest)) :=
    stops_of_kind (by simp [hkind]) (by simp)
  rw [comparison, List.append_assoc, List.cons_append, hl.additive hstop (by omega)]
  show (if t.kind = .comparator then _ else _) = _
  rw [if_pos hkind, hr.additive (hrest.mono (by simp [Level.operators]) (by simp)) (by omega)]
  show (Operator.ofValue t.value >>= _) = _
  rw [Operator.ofValue_eq_ok_iff.mpr hop]
  rfl

theorem accepts_additive (h : Accepts options .multiplicative ts e) :
    Accepts options .additive ts e := by
  intro rest least result hrest htail bound hbound
  obtain ⟨bound, rfl⟩ := Nat.exists_eq_add_of_le' (Nat.one_le_of_lt hbound)
  rw [Parser.additive, h.multiplicative hrest (by omega)]
  exact htail bound (by omega)

theorem accepts_add {op : Operator} (hl : Accepts options .additive ts l)
    (hop : op ∈ additiveOperators) (ht : IsOperator op t)
    (hr : Accepts options .multiplicative ts' r) :
    Accepts options .additive (ts ++ t :: ts') (.binary op l r) := by
  intro rest least result hrest htail bound hbound
  rw [List.length_append, List.length_cons] at hbound
  rw [List.append_assoc, List.cons_append]
  refine hl _ (least + 8 * ts'.length + 6) result (stops_of_isOperator ht ?_) ?_ bound (by omega)
  · simp only [additiveOperators, List.mem_cons, List.not_mem_nil, or_false] at hop
    rcases hop with rfl | rfl | rfl <;> decide
  · -- the loop takes the operator and its right operand, and goes on as from the whole
    intro bound hbound
    obtain ⟨bound, rfl⟩ := Nat.exists_eq_add_of_le' (Nat.one_le_of_lt hbound)
    rw [additiveTail, operatorAmong_eq_some_iff.mpr ⟨hop, ht⟩]
    show (Parser.multiplicative options bound (ts' ++ rest) >>= _) = _
    rw [hr.multiplicative hrest (by omega)]
    exact htail bound (by omega)

theorem accepts_multiplicative (h : Accepts options .power ts e) :
    Accepts options .multiplicative ts e := by
  intro rest least result hrest htail bound hbound
  obtain ⟨bound, rfl⟩ := Nat.exists_eq_add_of_le' (Nat.one_le_of_lt hbound)
  rw [Parser.multiplicative, h rest hrest bound (by omega)]
  exact htail bound (by omega)

theorem accepts_multiply {op : Operator} (hl : Accepts options .multiplicative ts l)
    (hop : op ∈ multiplicativeOperators) (ht : IsOperator op t)
    (hr : Accepts options .power ts' r) :
    Accepts options .multiplicative (ts ++ t :: ts') (.binary op l r) := by
  intro rest least result hrest htail bound hbound
  rw [List.length_append, List.length_cons] at hbound
  rw [List.append_assoc, List.cons_append]
  refine hl _ (least + 8 * ts'.length + 4) result (stops_of_isOperator ht ?_) ?_ bound (by omega)
  · simp only [multiplicativeOperators, List.mem_cons, List.not_mem_nil, or_false] at hop
    rcases hop with rfl | rfl | rfl <;> decide
  · -- as in sums, with a power as the right operand
    intro bound hbound
    obtain ⟨bound, rfl⟩ := Nat.exists_eq_add_of_le' (Nat.one_le_of_lt hbound)
    rw [multiplicativeTail, operatorAmong_eq_some_iff.mpr ⟨hop, ht⟩]
    show (power options bound (ts' ++ rest) >>= _) = _
    rw [hr rest hrest bound (by omega)]
    exact htail bound (by omega)

theorem accepts_power (h : Accepts options .signed ts e) : Accepts options .power ts e := by
  intro rest hrest bound hbound
  obtain ⟨bound, rfl⟩ := Nat.exists_eq_add_of_le' (Nat.one_le_of_lt hbound)
  rw [power, h rest bound (by omega)]
  cases rest with
  | nil => rfl
  | cons t rest =>
    have hpow : [Operator.pow] ⊆ Level.power.operators := by simp [Level.operators]
    dsimp only [Bind.bind, Except.bind]
    rw [hrest.operatorAmong hpow]
    rfl

theorem accepts_raise (hl : Accepts options .signed ts l) (ht : IsOperator .pow t)
    (hr : Accepts options .power ts' r) :
    Accepts options .power (ts ++ t :: ts') (.binary .pow l r) := by
  intro rest hrest bound hbound
  obtain ⟨bound, rfl⟩ := Nat.exists_eq_add_of_le' (Nat.one_le_of_lt hbound)
  rw [List.length_append, List.length_cons] at hbound
  rw [power, List.append_assoc, List.cons_append, hl _ bound (by omega)]
  dsimp only [Bind.bind, Except.bind]
  rw [operatorAmong_eq_some_iff.mpr ⟨List.mem_singleton.mpr rfl, ht⟩]
  show (power options bound (ts' ++ rest) >>= _) = _
  rw [hr rest hrest bound (by omega)]
  rfl

/-- No primary expression starts with an operator. -/
theorem Derives.kind_ne_operator (h : Derives options .primary (t :: rest) e) :
    t.kind ≠ .operator := by
  cases h with
  | literal h => rcases h with h | h | h <;> simp [h]
  | identifier h | group h | callEmpty h | call h => simp [h]

theorem accepts_signed (hderives : Derives options .primary ts e)
    (h : Accepts options .primary ts e) : Accepts options .signed ts e := by
  intro rest bound hbound
  obtain ⟨bound, rfl⟩ := Nat.exists_eq_add_of_le' (Nat.one_le_of_lt hbound)
  cases ts with
  | nil => exact absurd hderives.length_pos (by simp)
  | cons t ts =>
    -- with a sign in front the parser would not look for a primary expression
    have hnone : operatorAmong [.sub, .add] t = none := by
      rcases hfound : operatorAmong [.sub, .add] t with - | op
      · rfl
      · exact absurd (operatorAmong_eq_some_iff.mp hfound).2.1 hderives.kind_ne_operator
    rw [List.cons_append, signed, hnone]
    exact h rest bound (by omega)

theorem accepts_plus (ht : IsOperator .add t) (h : Accepts options .signed ts e) :
    Accepts options .signed (t :: ts) e := by
  intro rest bound hbound
  obtain ⟨bound, rfl⟩ := Nat.exists_eq_add_of_le' (Nat.one_le_of_lt hbound)
  rw [List.length_cons] at hbound
  rw [List.cons_append, signed, operatorAmong_eq_some_iff.mpr ⟨by simp, ht⟩]
  exact h rest bound (by omega)

theorem accepts_minus {e' : Expr} (ht : IsOperator .sub t) (h : Accepts options .signed ts e)
    (hneg : Negates options e e') : Accepts options .signed (t :: ts) e' := by
  intro rest bound hbound
  obtain ⟨bound, rfl⟩ := Nat.exists_eq_add_of_le' (Nat.one_le_of_lt hbound)
  rw [List.length_cons] at hbound
  rw [List.cons_append, signed, operatorAmong_eq_some_iff.mpr ⟨by simp, ht⟩]
  show (signed options bound (ts ++ rest) >>= _) = _
  rw [h rest bound (by omega), negates_iff.mp hneg]
  rfl

theorem accepts_literal (h : t.kind = .number ∨ t.kind = .string ∨ t.kind = .boolean) :
    Accepts options .primary [t] (.literal t.value) := by
  intro rest bound hbound
  obtain ⟨bound, rfl⟩ := Nat.exists_eq_add_of_le' (Nat.one_le_of_lt hbound)
  rw [List.singleton_append, primary]
  rcases h with h | h | h <;> rw [h] <;> rfl

theorem accepts_identifier (h : t.kind = .identifier) :
    Accepts options .primary [t] (reference t.value) := by
  intro rest bound hbound
  obtain ⟨bound, rfl⟩ := Nat.exists_eq_add_of_le' (Nat.one_le_of_lt hbound)
  rw [List.singleton_append, primary, h]
  rfl

theorem expect_cons {kind : Token.Kind} {wanted : Char} (h : t.kind = kind) :
    expect kind wanted (t :: rest) = .ok rest := by
  rw [expect, if_pos h]
  rfl

theorem accepts_group {o c : Token} (ho : o.kind = .leftParen)
    (h : Accepts options .comparison ts e) (hc : c.kind = .rightParen) :
    Accepts options .primary (o :: (ts ++ [c])) e := by
  intro rest bound hbound
  obtain ⟨bound, rfl⟩ := Nat.exists_eq_add_of_le' (Nat.one_le_of_lt hbound)
  simp only [List.length_cons, List.length_append, List.length_nil] at hbound
  have hstop : Stops .comparison (c :: rest) := stops_of_kind (by simp [hc]) (by simp [hc])
  rw [List.cons_append, List.append_assoc, List.singleton_append, primary, ho]
  show (comparison options bound (ts ++ c :: rest) >>= _) = _
  rw [h _ hstop bound (by omega)]
  show (expect .rightParen ')' (c :: rest) >>= _) = _
  rw [expect_cons hc]
  rfl

/-- What a function makes of its arguments, when these have been read. -/
theorem primary_of_arguments {f : Token} {name : String} {args : List Expr} {tokens : List Token}
    {bound : Nat} (hf : f.kind = .function) (hname : f.value.text? = some name)
    (hargs : arguments options bound tokens = .ok (args, rest))
    (happly : Applies options name args e) :
    primary options (bound + 1) (f :: tokens) = .ok (e, rest) := by
  rw [primary, hf]
  show (arguments options bound tokens >>= _) = _
  rw [hargs]
  show (functionName f >>= _) = _
  rw [functionName, hname]
  show (application options name args >>= _) = _
  rw [application_eq_ok_iff.mpr happly]
  rfl

theorem accepts_callEmpty {f o c : Token} {name : String} (hf : f.kind = .function)
    (hname : f.value.text? = some name) (ho : o.kind = .leftParen) (hc : c.kind = .rightParen)
    (happly : Applies options name [] e) : Accepts options .primary [f, o, c] e := by
  intro rest bound hbound
  obtain ⟨bound, rfl⟩ := Nat.exists_eq_add_of_le' (Nat.le_of_add_left_le hbound)
  simp only [List.length_cons, List.length_nil] at hbound
  refine primary_of_arguments hf hname ?_ happly
  obtain ⟨bound, rfl⟩ := Nat.exists_eq_add_of_le' (show 1 ≤ bound by omega)
  show arguments options (bound + 1) (o :: c :: rest) = _
  rw [arguments, expect_cons ho]
  show (if c.kind = .rightParen then _ else _) = _
  rw [if_pos hc]
  rfl

/-- No expression starts with a closing parenthesis. -/
theorem Derives.exists_cons {level : Level} {ts : List Token} {e : Expr} :
    Derives options level ts e → ∃ t rest, ts = t :: rest ∧ t.kind ≠ .rightParen
  | .additive h | .multiplicative h | .power h | .signed h | .primary h => h.exists_cons
  | .compare hl .. | .add hl .. | .multiply hl .. | .raise hl .. => by
    obtain ⟨t, rest, hts, hkind⟩ := hl.exists_cons
    exact ⟨t, _, by rw [hts, List.cons_append], hkind⟩
  | .plus ht _ | .minus ht _ _ => ⟨_, _, rfl, by simp [ht.1]⟩
  | .literal h => ⟨_, _, rfl, by rcases h with h | h | h <;> simp [h]⟩
  | .identifier h | .group h _ _ | .callEmpty h _ _ _ _ | .call h _ _ _ _ _ =>
    ⟨_, _, rfl, by simp [h]⟩

theorem DerivesAll.exists_cons {args : List Expr} (h : DerivesAll options ts args) :
    ∃ t rest, ts = t :: rest ∧ t.kind ≠ .rightParen := by
  cases h with
  | last h => exact h.exists_cons
  | next h =>
    obtain ⟨t, rest, hts, hkind⟩ := h.exists_cons
    exact ⟨t, _, by rw [hts, List.cons_append], hkind⟩

theorem accepts_call {f o c : Token} {name : String} {args : List Expr} (hf : f.kind = .function)
    (hname : f.value.text? = some name) (ho : o.kind = .leftParen)
    (hderives : DerivesAll options ts args) (hargs : AcceptsAll options ts args)
    (hc : c.kind = .rightParen) (happly : Applies options name args e) :
    Accepts options .primary (f :: o :: (ts ++ [c])) e := by
  intro rest bound hbound
  obtain ⟨bound, rfl⟩ := Nat.exists_eq_add_of_le' (Nat.le_of_add_left_le hbound)
  simp only [List.length_cons, List.length_append, List.length_nil] at hbound
  refine primary_of_arguments hf hname ?_ happly
  obtain ⟨bound, rfl⟩ := Nat.exists_eq_add_of_le' (show 1 ≤ bound by omega)
  -- the parser asks first whether the list is empty; no argument starts as its end
  have hlist := hargs c rest hc bound (by omega)
  obtain ⟨t, others, rfl, hne⟩ := hderives.exists_cons
  show arguments options (bound + 1) (o :: t :: (others ++ [c] ++ rest)) = _
  rw [List.append_assoc, List.singleton_append, arguments, expect_cons ho]
  show (if t.kind = .rightParen then _ else _) = _
  rw [if_neg hne]
  exact hlist

theorem acceptsAll_last (h : Accepts options .comparison ts e) : AcceptsAll options ts [e] := by
  intro c rest hc bound hbound
  obtain ⟨bound, rfl⟩ := Nat.exists_eq_add_of_le' (Nat.one_le_of_lt hbound)
  have hstop : Stops .comparison (c :: rest) := stops_of_kind (by simp [hc]) (by simp [hc])
  rw [argumentList, h _ hstop bound (by omega)]
  show (if c.kind = .comma then _ else _) = _
  rw [if_neg (by simp [hc])]
  show (expect .rightParen ')' (c :: rest) >>= _) = _
  rw [expect_cons hc]
  rfl

theorem acceptsAll_next {es : List Expr} (h : Accepts options .comparison ts e)
    (ht : t.kind = .comma) (hs : AcceptsAll options ts' es) :
    AcceptsAll options (ts ++ t :: ts') (e :: es) := by
  intro c rest hc bound hbound
  obtain ⟨bound, rfl⟩ := Nat.exists_eq_add_of_le' (Nat.one_le_of_lt hbound)
  rw [List.length_append, List.length_cons] at hbound
  have hstop : Stops .comparison (t :: (ts' ++ c :: rest)) :=
    stops_of_kind (by simp [ht]) (by simp [ht])
  rw [List.append_assoc, List.cons_append, argumentList, h _ hstop bound (by omega)]
  show (if t.kind = .comma then _ else _) = _
  rw [if_pos ht, hs c rest hc bound (by omega)]
  rfl

end

mutual

/-- **What is derived is accepted**: each rule of the grammar is a step of the parser. -/
theorem Derives.accepts {level : Level} {ts : List Token} {e : Expr} :
    Derives options level ts e → Accepts options level ts e
  | .additive h => accepts_comparison h.accepts
  | .compare hl hkind hop hr => accepts_compare hl.accepts hkind hop hr.accepts
  | .multiplicative h => accepts_additive h.accepts
  | .add hl hop ht hr => accepts_add hl.accepts hop ht hr.accepts
  | .power h => accepts_multiplicative h.accepts
  | .multiply hl hop ht hr => accepts_multiply hl.accepts hop ht hr.accepts
  | .signed h => accepts_power h.accepts
  | .raise hl ht hr => accepts_raise hl.accepts ht hr.accepts
  | .primary h => accepts_signed h h.accepts
  | .plus ht h => accepts_plus ht h.accepts
  | .minus ht h hneg => accepts_minus ht h.accepts hneg
  | .literal h => accepts_literal h
  | .identifier h => accepts_identifier h
  | .group ho h hc => accepts_group ho h.accepts hc
  | .callEmpty hf hname ho hc happly => accepts_callEmpty hf hname ho hc happly
  | .call hf hname ho hargs hc happly =>
    accepts_call hf hname ho hargs hargs.acceptsAll hc happly

theorem DerivesAll.acceptsAll {ts : List Token} {args : List Expr} :
    DerivesAll options ts args → AcceptsAll options ts args
  | .last h => acceptsAll_last h.accepts
  | .next h ht hs => acceptsAll_next h.accepts ht hs.acceptsAll

end

end Parser

/-! ### All tokens -/

namespace Expr

variable {options : ParserOptions} {tokens : List Token}

/-- Tokens form the expression that they derive. -/
theorem ofTokens_of_derives {e : Expr} (h : Parser.Derives options .comparison tokens e) :
    Expr.ofTokens options tokens = .ok e := by
  have haccepts := h.accepts [] (Parser.stops_nil _) (Parser.sufficientBound tokens)
    (by rw [Parser.sufficientBound]; omega)
  rw [List.append_nil] at haccepts
  have hnonempty : tokens.isEmpty = false := by
    cases tokens with
    | nil => exact absurd h.length_pos (by simp)
    | cons => rfl
  rw [ofTokens, hnonempty, haccepts]
  rfl

/-- **The parser accepts exactly its grammar.** From tokens that the lexer makes it gives an
expression if and only if they derive it, which they do for one expression at most, and in all other
cases it fails for a fault in the tokens. -/
theorem ofTokens_iff_derives (hspelled : AreSpelled tokens) :
    (∀ e, Expr.ofTokens options tokens = .ok e ↔ Parser.Derives options .comparison tokens e) ∧
      (∀ e e', Parser.Derives options .comparison tokens e →
        Parser.Derives options .comparison tokens e' → e = e') ∧
      ((¬ ∃ e, Parser.Derives options .comparison tokens e) →
        ∃ fault, Expr.ofTokens options tokens = .error (.parse fault)) := by
  refine ⟨fun e => ⟨derives_of_ofTokens, ofTokens_of_derives⟩, fun e e' h h' => ?_, fun hno => ?_⟩
  -- the parser is a function, so it settles which of two derivations there is
  · exact Except.ok.inj ((ofTokens_of_derives h).symm.trans (ofTokens_of_derives h'))
  · rcases hresult : Expr.ofTokens options tokens with e | e
    · obtain ⟨fault, rfl⟩ := exists_fault_of_ofTokens hspelled hresult
      exact ⟨fault, rfl⟩
    · exact absurd ⟨e, derives_of_ofTokens hresult⟩ hno

/-- The tokens of a comparison of a power, whose base has a sign, with a choice. -/
def signedPower : List Token :=
  [⟨.operator, .text "-", 0⟩, ⟨.number, .int 2, 1⟩, ⟨.operator, .text "^", 3⟩,
   ⟨.identifier, .text "a", 5⟩, ⟨.comparator, .text "<", 7⟩, ⟨.function, .text "IF", 9⟩,
   ⟨.leftParen, .text "(", 11⟩, ⟨.boolean, .bool true, 12⟩, ⟨.comma, .text ",", 16⟩,
   ⟨.string, .text "x", 18⟩, ⟨.rightParen, .text ")", 21⟩]

/-- Their derivation has the sign in the base and a false third argument. -/
theorem derives_signedPower :
    Token.scan .plain "-2 ^ a < IF(true, 'x')" = .ok signedPower ∧ AreSpelled signedPower ∧
      Parser.Derives ⟨fun _ => none, true⟩ .comparison signedPower
        (.binary .lt (.binary .pow (.literal (.int (-2))) (.identifier "a"))
          (.choice (.literal (.bool true)) (.literal (.text "x")) (.literal (.bool false)))) := by
  have hscan : Token.scan .plain "-2 ^ a < IF(true, 'x')" = .ok signedPower := by cbv
  have hspelled : AreSpelled signedPower := Token.areSpelled_scanFrom hscan
  exact ⟨hscan, hspelled, ((ofTokens_iff_derives hspelled).1 _).mp (by cbv)⟩

end Expr

end Formulary
