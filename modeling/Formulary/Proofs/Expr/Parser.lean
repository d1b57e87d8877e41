import Formulary.Proofs.Expr.Calls
import Formulary.Proofs.Expr.Grammar

/-!
# What the parser gives is derived

What the parser reads at a level of the grammar derives what it gives there. Where it gives nothing,
the tokens are at fault, provided that they are tokens which the lexer makes and that the bound on
the nesting of calls allows for their number. Both are shown in one walk over the grammar, by
induction on the bound (`Parser.isReader`). So the expression that tokens form is derived from them
(`Expr.derives_of_ofTokens`), and the bound that their number gives is never reached
(`Expr.exists_fault_of_ofTokens`).

What is derived calls known functions only, and so does what a text spells
(`Expr.functions_ofText`).
-/

namespace Formulary

namespace Parser

variable {options : ParserOptions}

/-! ### Readers -/

/-- Whether a parser with a bound on the nesting of calls fails on tokens for a fault in them only:
the lexer makes them, and they are few enough for the bound. A level of the grammar costs what it
may use of the bound besides what its tokens allow for. -/
structure Suffices (cost bound : Nat) (tokens : List Token) : Prop where
  spelled : AreSpelled tokens
  enough : 8 * tokens.length + cost ≤ bound

/-- What a parser of tokens may come to. Either the first ones, which it takes, have a property
together with what it gives, or it fails, for a fault in the tokens if it has to have a reason. -/
inductive Reads {α : Type} (P : List Token → α → Prop) (reasoned : Prop) (tokens : List Token) :
    Except Error (α × List Token) → Prop
  | gives {front rest : List Token} {a : α} (htokens : tokens = front ++ rest) (h : P front a) :
    Reads P reasoned tokens (.ok (a, rest))
  | fails {e : Error} (h : reasoned → ∃ fault, e = .parse fault) :
    Reads P reasoned tokens (.error e)

theorem Suffices.mono {cost bound cost' bound' : Nat} {tokens rest : List Token}
    (h : Suffices cost bound tokens) (front : List Token) (htokens : tokens = front ++ rest)
    (hcost : cost' + bound ≤ 8 * front.length + cost + bound') : Suffices cost' bound' rest := by
  refine ⟨fun t ht => h.spelled t (by simp [htokens, ht]), ?_⟩
  have henough := h.enough
  rw [htokens, List.length_append] at henough
  omega

namespace Reads

variable {α β : Type} {P P' : List Token → α → Prop} {Q : List Token → β → Prop}
  {reasoned reasoned' : Prop} {tokens : List Token}

theorem imp {x : Except Error (α × List Token)} (h : Reads P reasoned tokens x)
    (hreasoned : reasoned' → reasoned) (hP : ∀ front a, P front a → P' front a) :
    Reads P' reasoned' tokens x := by
  cases h with
  | gives htokens ha => exact .gives htokens (hP _ _ ha)
  | fails he => exact .fails fun hr => he (hreasoned hr)

/-- Giving something without taking a token. -/
theorem pure {a : α} (h : P [] a) : Reads P reasoned tokens (.ok (a, tokens)) :=
  .gives (List.nil_append tokens).symm h

/-- Taking the first token. -/
theorem cons {t : Token} {x : Except Error (α × List Token)}
    (h : Reads (fun front => P (t :: front)) reasoned tokens x) :
    Reads P reasoned (t :: tokens) x := by
  cases h with
  | gives htokens ha => exact .gives (by rw [htokens, List.cons_append]) ha
  | fails he => exact .fails he

/-- One parser after the other. -/
theorem bind {x : Except Error (α × List Token)}
    {f : α × List Token → Except Error (β × List Token)} (hx : Reads P reasoned' tokens x)
    (hreasoned : reasoned → reasoned')
    (hf : ∀ front rest a, tokens = front ++ rest → P front a →
      Reads (fun back => Q (front ++ back)) reasoned rest (f (a, rest))) :
    Reads Q reasoned tokens (x >>= f) := by
  cases hx with
  | fails he => exact .fails fun hr => he (hreasoned hr)
  | @gives front rest a htokens ha =>
    have hresult := hf front rest a htokens ha
    show Reads Q reasoned tokens (f (a, rest))
    generalize f (a, rest) = result at hresult
    cases hresult with
    | gives hrest hb => exact .gives (by rw [htokens, hrest, List.append_assoc]) hb
    | fails he => exact .fails he

/-- A step that takes no token. -/
theorem bind_of_ok {γ : Type} {x : Except Error γ} {f : γ → Except Error (β × List Token)}
    (hfault : ∀ e, x = .error e → reasoned → ∃ fault, e = .parse fault)
    (hf : ∀ c, x = .ok c → Reads Q reasoned tokens (f c)) : Reads Q reasoned tokens (x >>= f) := by
  cases hx : x with
  | error e => exact .fails (hfault e hx)
  | ok c => exact hf c hx

/-- Punctuation is there, or the tokens are at fault. -/
theorem bind_expect {kind : Token.Kind} {wanted : Char}
    {f : List Token → Except Error (β × List Token)}
    (hf : ∀ t rest, tokens = t :: rest → t.kind = kind →
      Reads (fun back => Q (t :: back)) reasoned rest (f rest)) :
    Reads Q reasoned tokens (expect kind wanted tokens >>= f) := by
  cases tokens with
  | nil => exact .fails fun _ => ⟨_, rfl⟩
  | cons t rest =>
    rw [expect]
    split
    · next hkind => exact (hf t rest rfl hkind).cons
    · exact .fails fun _ => ⟨_, rfl⟩

end Reads

/-! ### The grammar -/

/-- What the closing parenthesis ends: arguments with a comma between each two. -/
def EndsArguments (options : ParserOptions) (ts : List Token) (args : List Expr) : Prop :=
  ∃ middle r, ts = middle ++ [r] ∧ r.kind = .rightParen ∧ DerivesAll options middle args

/-- Arguments in their parentheses, or nothing in them. -/
def EnclosesArguments (options : ParserOptions) (ts : List Token) (args : List Expr) : Prop :=
  ∃ l, l.kind = .leftParen ∧ ((∃ r, ts = [l, r] ∧ r.kind = .rightParen ∧ args = []) ∨
    ∃ rest, ts = l :: rest ∧ EndsArguments options rest args)

/-- The claim for all levels of the grammar with one bound. -/
structure IsReader (options : ParserOptions) (bound : Nat) : Prop where
  comparison : ∀ tokens, Reads (Derives options .comparison) (Suffices 8 bound tokens) tokens
    (comparison options bound tokens)
  additive : ∀ tokens, Reads (Derives options .additive) (Suffices 6 bound tokens) tokens
    (additive options bound tokens)
  additiveTail : ∀ front left tokens, Derives options .additive front left →
    Reads (fun back => Derives options .additive (front ++ back)) (Suffices 1 bound tokens) tokens
      (additiveTail options bound left tokens)
  multiplicative : ∀ tokens, Reads (Derives options .multiplicative) (Suffices 4 bound tokens)
    tokens (multiplicative options bound tokens)
  multiplicativeTail : ∀ front left tokens, Derives options .multiplicative front left →
    Reads (fun back => Derives options .multiplicative (front ++ back)) (Suffices 1 bound tokens)
      tokens (multiplicativeTail options bound left tokens)
  power : ∀ tokens, Reads (Derives options .power) (Suffices 3 bound tokens) tokens
    (power options bound tokens)
  signed : ∀ tokens, Reads (Derives options .signed) (Suffices 2 bound tokens) tokens
    (signed options bound tokens)
  primary : ∀ tokens, Reads (Derives options .primary) (Suffices 1 bound tokens) tokens
    (primary options bound tokens)
  arguments : ∀ tokens, Reads (EnclosesArguments options) (Suffices 2 bound tokens) tokens
    (arguments options bound tokens)
  argumentList : ∀ tokens, Reads (EndsArguments options) (Suffices 9 bound tokens) tokens
    (argumentList options bound tokens)

/-- With a bound of zero nothing is read, and it is too small for any tokens. -/
theorem reads_zero {α : Type} {P : List Token → α → Prop} {cost : Nat} (hcost : 0 < cost)
    (tokens : List Token) : Reads P (Suffices cost 0 tokens) tokens (.error .tooDeep) :=
  .fails fun h => absurd h.enough (by omega)

theorem isReader_zero : IsReader options 0 where
  comparison := reads_zero (by decide)
  additive := reads_zero (by decide)
  additiveTail _ _ tokens _ := reads_zero (by decide) tokens
  multiplicative := reads_zero (by decide)
  multiplicativeTail _ _ tokens _ := reads_zero (by decide) tokens
  power := reads_zero (by decide)
  signed := reads_zero (by decide)
  primary := reads_zero (by decide)
  arguments := reads_zero (by decide)
  argumentList := reads_zero (by decide)

/-- The loops over operators that group to the left: after what has been read of a level there is
an operator of the level with one more operand, or nothing more. -/
theorem reads_tail {bound : Nat} {level lower : Level} {operators : List Operator} {cost : Nat}
    {operand : List Token → Except Error (Expr × List Token)}
    {again : Expr → List Token → Except Error (Expr × List Token)}
    (hderives : ∀ {front back : List Token} {t : Token} {left right : Expr} {op : Operator},
      Derives options level front left → op ∈ operators → IsOperator op t →
      Derives options lower back right →
        Derives options level (front ++ t :: back) (.binary op left right))
    (hcost : cost ≤ 8)
    (hoperand : ∀ tokens, Reads (Derives options lower) (Suffices cost bound tokens) tokens
      (operand tokens))
    (hagain : ∀ front left tokens, Derives options level front left →
      Reads (fun back => Derives options level (front ++ back)) (Suffices 1 bound tokens) tokens
        (again left tokens))
    {front : List Token} {left : Expr} (hleft : Derives options level front left) (t : Token)
    (rest : List Token) :
    Reads (fun back => Derives options level (front ++ back)) (Suffices 1 (bound + 1) (t :: rest))
      (t :: rest)
      (match operatorAmong operators t with
        | some op => do
          let (right, tokens) ← operand rest
          again (.binary op left right) tokens
        | none => return (left, t :: rest)) := by
  split
  · next op hop =>
    obtain ⟨hmem, ht⟩ := operatorAmong_eq_some_iff.mp hop
    refine Reads.cons ((hoperand rest).bind (fun h => h.mono [t] rfl ?_)
      fun back rest' right hrest hright => ?_)
    · simp
      omega
    · -- what has been read goes on with the operator and its operand, from where the loop goes on
      have hpos := hright.length_pos
      refine (hagain (front ++ t :: back) (.binary op left right) rest'
        (hderives hleft hmem ht hright)).imp (fun h => h.mono (t :: back) ?_ ?_) ?_
      · rw [hrest, List.cons_append]
      · rw [List.length_cons]
        omega
      · intro more e h
        rwa [List.append_assoc, List.cons_append] at h
  · exact .pure (by rwa [List.append_nil])

section

variable {bound : Nat} (ih : IsReader options bound) (tokens : List Token)
include ih

theorem reads_comparison : Reads (Derives options .comparison) (Suffices 8 (bound + 1) tokens)
    tokens (comparison options (bound + 1) tokens) := by
  rw [comparison]
  refine (ih.additive tokens).bind (fun h => h.mono [] rfl (by omega))
    fun front rest left htokens hleft => ?_
  -- with no comparator after it, the sum is all there is
  have hend : Derives options .comparison (front ++ []) left := by
    rw [List.append_nil]
    exact .additive hleft
  dsimp only
  split
  · next t rest =>
    split
    · next hkind =>
      refine Reads.cons ((ih.additive rest).bind (fun h => h.mono (front ++ [t])
        (by simp [htokens]) ?_) fun back rest' right _ hright => ?_)
      · rw [List.length_append]
        omega
      · refine Reads.bind_of_ok (fun e he h => ?_) fun op hop => .pure ?_
        · -- a comparator that the lexer makes names an operator
          obtain ⟨op, hop⟩ := (h.spelled t (by simp [htokens])).exists_symbol hkind
          rw [Operator.ofValue_eq_ok_iff.mpr hop] at he
          cases he
        · rw [List.append_nil]
          exact .compare hleft hkind (Operator.ofValue_eq_ok_iff.mp hop) hright
    · exact .pure hend
  · exact .pure hend

theorem reads_additive : Reads (Derives options .additive) (Suffices 6 (bound + 1) tokens) tokens
    (additive options (bound + 1) tokens) := by
  rw [additive]
  refine (ih.multiplicative tokens).bind (fun h => h.mono [] rfl (by omega))
    fun front rest left htokens hleft => ?_
  have hpos := hleft.length_pos
  exact (ih.additiveTail front left rest (.multiplicative hleft)).imp
    (fun h => h.mono front htokens (by omega)) fun _ _ h => h

theorem reads_additiveTail {front : List Token} {left : Expr}
    (hleft : Derives options .additive front left) :
    Reads (fun back => Derives options .additive (front ++ back)) (Suffices 1 (bound + 1) tokens)
      tokens (additiveTail options (bound + 1) left tokens) := by
  cases tokens with
  | nil => exact .pure (by rwa [List.append_nil])
  | cons t rest =>
    rw [additiveTail]
    exact reads_tail .add (by omega) ih.multiplicative ih.additiveTail hleft t rest

theorem reads_multiplicative : Reads (Derives options .multiplicative)
    (Suffices 4 (bound + 1) tokens) tokens (multiplicative options (bound + 1) tokens) := by
  rw [multiplicative]
  refine (ih.power tokens).bind (fun h => h.mono [] rfl (by omega))
    fun front rest left htokens hleft => ?_
  have hpos := hleft.length_pos
  exact (ih.multiplicativeTail front left rest (.power hleft)).imp
    (fun h => h.mono front htokens (by omega)) fun _ _ h => h

theorem reads_multiplicativeTail {front : List Token} {left : Expr}
    (hleft : Derives options .multiplicative front left) :
    Reads (fun back => Derives options .multiplicative (front ++ back))
      (Suffices 1 (bound + 1) tokens) tokens
      (multiplicativeTail options (bound + 1) left tokens) := by
  cases tokens with
  | nil => exact .pure (by rwa [List.append_nil])
  | cons t rest =>
    rw [multiplicativeTail]
    exact reads_tail .multiply (by omega) ih.power ih.multiplicativeTail hleft t rest

theorem reads_power : Reads (Derives options .power) (Suffices 3 (bound + 1) tokens) tokens
    (power options (bound + 1) tokens) := by
  rw [power]
  refine (ih.signed tokens).bind (fun h => h.mono [] rfl (by omega))
    fun front rest base htokens hbase => ?_
  -- with no operator after it, the base is all there is
  have hend : Derives options .power (front ++ []) base := by
    rw [List.append_nil]
    exact .signed hbase
  dsimp only
  split
  · next t rest =>
    split
    · next op hop =>
      obtain ⟨hmem, ht⟩ := operatorAmong_eq_some_iff.mp hop
      obtain rfl := List.mem_singleton.mp hmem
      refine Reads.cons ((ih.power rest).bind (fun h => h.mono (front ++ [t])
        (by simp [htokens]) ?_) fun back rest' exponent _ hexponent => .pure ?_)
      · rw [List.length_append]
        simp
        omega
      · rw [List.append_nil]
        exact .raise hbase ht hexponent
    · exact .pure hend
  · exact .pure hend

theorem reads_signed : Reads (Derives options .signed) (Suffices 2 (bound + 1) tokens) tokens
    (signed options (bound + 1) tokens) := by
  have hprimary : Reads (Derives options .signed) (Suffices 2 (bound + 1) tokens) tokens
      (primary options bound tokens) :=
    (ih.primary tokens).imp (fun h => h.mono [] rfl (by omega)) fun _ _ => .primary
  have hrest {t : Token} {rest : List Token} (h : Suffices 2 (bound + 1) (t :: rest)) :
      Suffices 2 bound rest := h.mono [t] rfl (by simp; omega)
  unfold signed
  split
  · next t rest =>
    split
    · next hop =>
      refine Reads.cons ((ih.signed rest).bind hrest fun back rest' operand _ hoperand => .pure ?_)
      rw [List.append_nil]
      exact .minus (operatorAmong_eq_some_iff.mp hop).2 hoperand (negates_iff.mpr rfl)
    · next op hne hop =>
      obtain ⟨hmem, ht⟩ := operatorAmong_eq_some_iff.mp hop
      have hplus : op = .add := by
        simp only [List.mem_cons, List.not_mem_nil, or_false] at hmem
        exact hmem.resolve_left hne
      subst hplus
      exact Reads.cons ((ih.signed rest).imp hrest fun back e he => .plus ht he)
    · exact hprimary
  · exact hprimary

theorem reads_primary : Reads (Derives options .primary) (Suffices 1 (bound + 1) tokens) tokens
    (primary options (bound + 1) tokens) := by
  cases tokens with
  | nil => exact .fails fun _ => ⟨_, rfl⟩
  | cons t rest =>
    rw [primary]
    split
    · next hkind => exact Reads.cons (.pure (.literal (.inl hkind)))
    · next hkind => exact Reads.cons (.pure (.literal (.inr (.inl hkind))))
    · next hkind => exact Reads.cons (.pure (.literal (.inr (.inr hkind))))
    · next hkind => exact Reads.cons (.pure (.identifier hkind))
    · next hkind =>
      -- the name of a call is looked up when its arguments have been read
      refine Reads.cons ((ih.arguments rest).bind (fun h => h.mono [t] rfl
        (by simp; omega)) fun back rest' args _ hargs => ?_)
      refine Reads.bind_of_ok (fun e he h => ?_) fun name hname => ?_
      · -- a function that the lexer makes has a name
        obtain ⟨name, hname⟩ := (h.spelled t List.mem_cons_self).exists_name hkind
        simp only [functionName, hname] at he
        cases he
      · have htext : t.value.text? = some name := by
          rw [functionName] at hname
          split at hname
          · next htext => rw [htext, Except.ok.inj hname]
          · cases hname
        refine Reads.bind_of_ok (fun e he _ => exists_fault_of_application he)
          fun e happly => .pure ?_
        rw [application_eq_ok_iff] at happly
        obtain ⟨l, hl, ⟨r, rfl, hr, rfl⟩ | ⟨_, rfl, middle, r, rfl, hr, hargs⟩⟩ := hargs
        · exact .callEmpty hkind htext hl hr happly
        · rw [List.append_nil]
          exact .call hkind htext hl hargs hr happly
    · next hkind =>
      refine Reads.cons ((ih.comparison rest).bind (fun h => h.mono [t] rfl
        (by simp; omega)) fun middle rest' e _ he => Reads.bind_expect fun r _ _ hr => .pure ?_)
      exact .group hkind he hr
    · exact .fails fun _ => ⟨_, rfl⟩

theorem reads_arguments : Reads (EnclosesArguments options) (Suffices 2 (bound + 1) tokens) tokens
    (arguments options (bound + 1) tokens) := by
  rw [arguments]
  refine Reads.bind_expect fun l rest htokens hl => ?_
  have hlist (rest' : List Token) (hrest : rest = rest') :
      Reads (fun back => EnclosesArguments options (l :: back)) (Suffices 2 (bound + 1) tokens)
        rest' (argumentList options bound rest') := by
    refine (ih.argumentList rest').imp (fun h => h.mono [l] (by rw [htokens, hrest]; rfl)
      ?_) fun back args hargs => ⟨l, hl, .inr ⟨back, rfl, hargs⟩⟩
    simp
    omega
  split
  · exact hlist [] rfl
  · next t rest' =>
    split
    · next hkind => exact Reads.cons (.pure ⟨l, hl, .inl ⟨t, rfl, hkind, rfl⟩⟩)
    · exact hlist _ rfl

theorem reads_argumentList : Reads (EndsArguments options) (Suffices 9 (bound + 1) tokens) tokens
    (argumentList options (bound + 1) tokens) := by
  rw [argumentList]
  refine (ih.comparison tokens).bind (fun h => h.mono [] rfl (by omega))
    fun front rest first htokens hfirst => ?_
  -- with no comma after it, the first argument is the last one, and a parenthesis follows
  have hend (rest : List Token) : Reads (fun back => EndsArguments options (front ++ back))
      (Suffices 9 (bound + 1) tokens) rest
      (do return ([first], ← expect .rightParen ')' rest)) :=
    Reads.bind_expect fun r _ _ hr => .pure ⟨front, r, rfl, hr, .last hfirst⟩
  dsimp only
  split
  · next t rest =>
    split
    · next hkind =>
      refine Reads.cons ((ih.argumentList rest).bind (fun h => h.mono (front ++ [t])
        (by simp [htokens]) ?_) fun back rest' others _ hothers => .pure ?_)
      · simp
        omega
      · obtain ⟨middle, r, rfl, hr, hmiddle⟩ := hothers
        exact ⟨front ++ t :: middle, r, by simp, hr, .next hfirst hkind hmiddle⟩
    · exact hend _
  · exact hend _

end

/-- Every level of the grammar gives what its tokens derive, or finds a fault in them. -/
theorem isReader (bound : Nat) : IsReader options bound := by
  induction bound with
  | zero => exact isReader_zero
  | succ bound ih =>
    exact ⟨reads_comparison ih, reads_additive ih, fun _ _ tokens => reads_additiveTail ih tokens,
      reads_multiplicative ih, fun _ _ tokens => reads_multiplicativeTail ih tokens,
      reads_power ih, reads_signed ih, reads_primary ih, reads_arguments ih,
      reads_argumentList ih⟩

end Parser

/-! ### All tokens -/

namespace Expr

variable {options : ParserOptions} {tokens : List Token}

/-- The expression that tokens form is derived from them. -/
theorem derives_of_ofTokens {e : Expr} (h : Expr.ofTokens options tokens = .ok e) :
    Parser.Derives options .comparison tokens e := by
  rw [ofTokens] at h
  split at h
  · cases h
  · have hreader : Parser.IsReader options (Parser.sufficientBound tokens) := Parser.isReader _
    have hread := hreader.comparison tokens
    rcases hparse : Parser.comparison options (Parser.sufficientBound tokens) tokens
      with fault | ⟨e', rest⟩
    · rw [hparse] at h
      cases h
    · rw [hparse] at h hread
      cases rest with
      | nil =>
        obtain rfl : e' = e := Except.ok.inj h
        cases hread with
        | gives htokens hderives =>
          rw [htokens, List.append_nil]
          exact hderives
      | cons t rest => cases h

/-- Tokens that the lexer makes and that form no expression are at fault. -/
theorem exists_fault_of_ofTokens (hspelled : AreSpelled tokens) {e : Error}
    (h : Expr.ofTokens options tokens = .error e) : ∃ fault, e = .parse fault := by
  rw [ofTokens] at h
  split at h
  · obtain rfl := Except.error.inj h
    exact ⟨_, rfl⟩
  · have hreader : Parser.IsReader options (Parser.sufficientBound tokens) := Parser.isReader _
    have hread := hreader.comparison tokens
    rcases hparse : Parser.comparison options (Parser.sufficientBound tokens) tokens
      with fault | ⟨e', rest⟩
    · rw [hparse] at h hread
      obtain rfl : fault = e := Except.error.inj h
      cases hread with
      | fails hfault => exact hfault ⟨hspelled, by rw [Parser.sufficientBound]; omega⟩
    · rw [hparse] at h
      cases rest with
      | nil => cases h
      | cons t rest =>
        obtain rfl : Parser.unexpected t = e := Except.error.inj h
        exact ⟨_, rfl⟩

end Expr

/-! ### Functions in what is derived -/

/-- Whether a value is a number, a truth value or a text. -/
inductive Value.IsPlain : Value → Prop
  | int (n : Int) : IsPlain (.int n)
  | float (x : Binary64) : IsPlain (.float x)
  | bool (b : Bool) : IsPlain (.bool b)
  | text (s : String) : IsPlain (.text s)

theorem Value.IsPlain.isInert {v : Value} (h : v.IsPlain) : v.IsInert := by
  cases h <;> exact ⟨rfl, rfl⟩

theorem Value.isPlain_ofNumber (a : Number) : (Value.ofNumber a).IsPlain := by
  cases a with
  | int n => exact .int n
  | float x => exact .float x

theorem Lexeme.isPlain_first? {options : LexerOptions} {text : List Char} {l : Lexeme}
    (h : first? options text = some l) : l.value.IsPlain := by
  rcases first?_eq_some h with h | h | h | h
  · obtain ⟨numeral, -, rfl⟩ := Option.map_eq_some_iff.1 h
    show numeral.value.IsPlain
    rw [Numeral.value]
    split
    · exact .int _
    · exact .float _
  · unfold quoted? at h
    split at h
    · split at h
      · obtain ⟨p, -, rfl⟩ := Option.map_eq_some_iff.1 h
        exact .text _
      · cases h
    · cases h
  · rcases kind_of_name? h with ⟨-, b, hb⟩ | ⟨-, s, hs⟩
    · rw [hb]
      exact .bool b
    · rw [hs]
      exact .text s
  · obtain ⟨s, hs, -⟩ := kind_of_sign? h
    rw [hs]
    exact .text s

theorem Token.IsSpelled.isPlain {t : Token} (h : t.IsSpelled) : t.value.IsPlain := by
  obtain ⟨options, text, l, hl, -, hvalue⟩ := h
  rw [← hvalue]
  exact Lexeme.isPlain_first? hl

namespace Parser

variable {options : ParserOptions}

/-- A minus calls nothing. -/
theorem Negates.functions {e e' : Expr} (h : Negates options e e') :
    e'.functions ⊆ e.functions := by
  cases h with
  | folded hfolds hv =>
    rw [Expr.functions, Value.functions_of_isInert (Value.isInert_ofNumber _)]
    exact List.nil_subset _
  | kept => exact fun f hf => hf

/-- An application calls a known function, or what its arguments call. -/
theorem Applies.functions {name : String} {args : List Expr} {e : Expr}
    (h : Applies options name args e) {f : Function} (hf : f ∈ e.functions) :
    options.find? name = some f ∨ f ∈ Expr.allFunctions args := by
  cases h with
  | choice => exact .inr (by simpa [Expr.functions, Expr.allFunctions] using hf)
  | choiceOrFalse =>
    exact .inr (by simpa [Expr.functions, Expr.allFunctions, Value.functions] using hf)
  | call hname hfound =>
    rcases List.mem_cons.mp hf with rfl | hf
    · exact .inl hfound
    · exact .inr hf

mutual

/-- What is derived from tokens that the lexer makes calls known functions only. -/
theorem Derives.exists_find? {f : Function} {level : Level} {ts : List Token} {e : Expr} :
    Derives options level ts e → AreSpelled ts → f ∈ e.functions →
      ∃ name, options.find? name = some f
  | .additive h, hs, hf | .multiplicative h, hs, hf | .power h, hs, hf | .signed h, hs, hf
  | .primary h, hs, hf => h.exists_find? hs hf
  | .compare hl _ _ hr, hs, hf | .add hl _ _ hr, hs, hf | .multiply hl _ _ hr, hs, hf
  | .raise hl _ hr, hs, hf => by
    rcases List.mem_append.mp hf with hf | hf
    · exact hl.exists_find? (fun t ht => hs t (by simp [ht])) hf
    · exact hr.exists_find? (fun t ht => hs t (by simp [ht])) hf
  | .plus _ h, hs, hf => h.exists_find? (fun t ht => hs t (by simp [ht])) hf
  | .minus _ h hneg, hs, hf =>
    h.exists_find? (fun t ht => hs t (by simp [ht])) (hneg.functions hf)
  | .literal _, hs, hf => by
    rw [Expr.functions, Value.functions_of_isInert (hs _ List.mem_cons_self).isPlain.isInert] at hf
    cases hf
  | .identifier _, _, hf => by
    rw [reference] at hf
    split at hf
    · cases hf
    · cases hf
  | .group _ h _, hs, hf => h.exists_find? (fun t ht => hs t (by simp [ht])) hf
  | .callEmpty _ _ _ _ happly, _, hf => by
    rcases happly.functions hf with hfound | hf
    · exact ⟨_, hfound⟩
    · cases hf
  | .call _ _ _ hargs _ happly, hs, hf => by
    rcases happly.functions hf with hfound | hf
    · exact ⟨_, hfound⟩
    · exact hargs.exists_find? (fun t ht => hs t (by simp [ht])) hf

theorem DerivesAll.exists_find? {f : Function} {ts : List Token} {es : List Expr} :
    DerivesAll options ts es → AreSpelled ts → f ∈ Expr.allFunctions es →
      ∃ name, options.find? name = some f
  | .last h, hs, hf => by
    rcases List.mem_append.mp hf with hf | hf
    · exact h.exists_find? hs hf
    · cases hf
  | .next h _ hrest, hs, hf => by
    rcases List.mem_append.mp hf with hf | hf
    · exact h.exists_find? (fun t ht => hs t (by simp [ht])) hf
    · exact hrest.exists_find? (fun t ht => hs t (by simp [ht])) hf

end

end Parser

theorem Expr.exists_scan_of_ofText {lexer : LexerOptions} {parser : ParserOptions} {text : String}
    {e : Expr} (h : Expr.ofText lexer parser text = .ok e) :
    ∃ tokens, Token.scan lexer text = .ok tokens ∧ Expr.ofTokens parser tokens = .ok e :=
  Except.bind_eq_ok_iff.mp h

/-- What a text spells is derived from its tokens. -/
theorem Expr.exists_derives_of_ofText {lexer : LexerOptions} {parser : ParserOptions}
    {text : String} {e : Expr} (h : Expr.ofText lexer parser text = .ok e) :
    ∃ tokens, AreSpelled tokens ∧ Parser.Derives parser .comparison tokens e := by
  obtain ⟨tokens, hscan, he⟩ := exists_scan_of_ofText h
  exact ⟨tokens, Token.areSpelled_scanFrom hscan, derives_of_ofTokens he⟩

/-- **An expression that a text spells calls functions that its parser knows.** -/
theorem Expr.functions_ofText {lexer : LexerOptions} {parser : ParserOptions} {text : String}
    {e : Expr} (h : Expr.ofText lexer parser text = .ok e) :
    ∀ f ∈ e.functions, ∃ name, parser.find? name = some f := by
  obtain ⟨tokens, hspelled, hderives⟩ := exists_derives_of_ofText h
  exact fun f hf => hderives.exists_find? hspelled hf

end Formulary
