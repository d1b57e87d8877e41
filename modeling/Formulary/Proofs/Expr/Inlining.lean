import Formulary.Proofs.Expr.Acyclic
import Formulary.Proofs.Expr.Completeness

/-!
# Formulas in the place of names

A name that is bound to a formula means what the formula means. So the tokens of a formula may stand
in parentheses wherever the name stands (`Token.inlined`): what is derived from them is the tree
with the formula in the place of the name (`Expr.inlined`), and against an acyclic memory it has the
same value and the same free names (`Expr.ofTokens_inlined`).

The trees are not quite those of the source with the name replaced. A minus before the name is a
negation, while before a formula that is a number it is folded into the literal. This changes the
tree but not its value, so the replaced tree is built with the parser's own `Parser.negated`.
-/

namespace Formulary

/-! ### Trees -/

mutual

/-- An expression with a formula in the place of a name. -/
def Expr.inlined (folds : Bool) (x : String) (f : Expr) : Expr → Expr
  | .literal v => .literal v
  | .identifier name => if name = x then f else .identifier name
  | .keyed key => .keyed key
  | .negation e => Parser.negated folds (Expr.inlined folds x f e)
  | .binary op l r => .binary op (Expr.inlined folds x f l) (Expr.inlined folds x f r)
  | .call g args => .call g (Expr.allInlined folds x f args)
  | .choice c t e =>
    .choice (Expr.inlined folds x f c) (Expr.inlined folds x f t) (Expr.inlined folds x f e)
  | .given result needs => .given result needs
  | .asking f needs => .asking f needs

/-- Several expressions with a formula in the place of a name. -/
def Expr.allInlined (folds : Bool) (x : String) (f : Expr) : List Expr → List Expr
  | [] => []
  | e :: es => Expr.inlined folds x f e :: Expr.allInlined folds x f es

end

theorem Value.neg_of_number? {v : Value} {a : Number} (h : v.number? = some a) :
    v.neg = .ok (.ofNumber a.neg) := by
  have hscalar : v.scalar? = some (.real a) := by
    fun_induction Value.number? v with
    | case1 | case2 | case3 =>
      obtain rfl := Option.some.inj h
      rfl
    | case4 identity content ih => exact ih h
    | case5 => cases h
  rw [neg, hscalar]
  rfl

/-- A sign is kept as a negation, or folded into a literal. -/
theorem Parser.negated_eq_or (folds : Bool) (e : Expr) : negated folds e = .negation e ∨
    ∃ v a, e = .literal v ∧ v.number? = some a ∧ negated folds e = .literal (.ofNumber a.neg) := by
  cases e with
  | literal v =>
    rcases folds with - | -
    · exact .inl rfl
    · rcases ha : v.number? with - | a
      · exact .inl (by simp only [negated, if_pos, ha])
      · exact .inr ⟨v, a, rfl, ha, by simp only [negated, if_pos, ha]⟩
  | _ => exact .inl rfl

namespace Expr

variable {folds : Bool} {x : String} {f : Expr}

theorem length_allInlined (es : List Expr) : (allInlined folds x f es).length = es.length := by
  induction es with
  | nil => rfl
  | cons e es ih => rw [allInlined, List.length_cons, List.length_cons, ih]

/-- Changing a sign goes through. -/
theorem inlined_negated (e : Expr) : inlined folds x f (Parser.negated folds e) =
    Parser.negated folds (inlined folds x f e) := by
  rcases Parser.negated_eq_or folds e with h | ⟨v, a, rfl, -, h⟩
  · rw [h, inlined]
  · rw [inlined, h, inlined]

/-! ### Meaning -/

section

variable {m : Type → Type} [Monad m] [MonadExceptOf Error m] {s : Surroundings m}
  {formula : Expr → m Value}

/-- Folding a sign into a literal does not change the value. -/
theorem evalBy_negated [LawfulMonad m] (e : Expr) :
    (Parser.negated folds e).evalBy s formula = (Expr.negation e).evalBy s formula := by
  rcases Parser.negated_eq_or folds e with h | ⟨v, a, rfl, ha, h⟩
  · rw [h]
  · rw [h, evalBy, evalBy, evalBy, pure_bind, Value.neg_of_number? ha]
    rfl

mutual

/-- A tree keeps its value if what takes the place of the name has its value. -/
theorem evalBy_inlined [LawfulMonad m]
    (hx : (Expr.identifier x).evalBy s formula = f.evalBy s formula) : ∀ e : Expr,
    (inlined folds x f e).evalBy s formula = e.evalBy s formula
  | .literal _ | .keyed _ | .given .. | .asking .. => rfl
  | .identifier name => by
    rw [inlined]
    split
    · next h => rw [h, hx]
    · rfl
  | .negation e => by rw [inlined, evalBy_negated, evalBy, evalBy, evalBy_inlined hx e]
  | .binary _ l r => by rw [inlined, evalBy, evalBy, evalBy_inlined hx l, evalBy_inlined hx r]
  | .call _ args => by rw [inlined, evalBy, evalBy, evalAllBy_inlined hx args]
  | .choice c t e => by
    rw [inlined, evalBy, evalBy, evalBy_inlined hx c, evalBy_inlined hx t, evalBy_inlined hx e]

theorem evalAllBy_inlined [LawfulMonad m]
    (hx : (Expr.identifier x).evalBy s formula = f.evalBy s formula) : ∀ es : List Expr,
    Expr.evalAllBy s formula (Expr.allInlined folds x f es) = Expr.evalAllBy s formula es
  | [] => rfl
  | e :: es => by
    rw [allInlined, evalAllBy, evalAllBy, evalBy_inlined hx e, evalAllBy_inlined hx es]

end

end

section

variable {m : Type → Type} [Monad m] {behind : String → m (List String)}

theorem freeNamesBy_negated [LawfulMonad m] (e : Expr) : (Parser.negated folds e).freeNamesBy behind =
    (Expr.negation e).freeNamesBy behind := by
  rcases Parser.negated_eq_or folds e with h | ⟨v, a, rfl, -, h⟩
  · rw [h]
  · rw [h]
    simp [freeNamesBy]

mutual

/-- A tree keeps its free names if the name stands for those of what takes its place. -/
theorem freeNamesBy_inlined [LawfulMonad m] (hx : behind x = f.freeNamesBy behind) :
    ∀ e : Expr, (inlined folds x f e).freeNamesBy behind = e.freeNamesBy behind
  | .literal _ | .keyed _ | .given .. | .asking .. => by rw [inlined]
  | .identifier name => by
    rw [inlined]
    split
    · next h => rw [h, freeNamesBy, hx]
    · rfl
  | .negation e => by
    rw [inlined, freeNamesBy_negated, freeNamesBy, freeNamesBy, freeNamesBy_inlined hx e]
  | .binary _ l r => by
    rw [inlined, freeNamesBy, freeNamesBy, freeNamesBy_inlined hx l, freeNamesBy_inlined hx r]
  | .call _ args => by rw [inlined, freeNamesBy, freeNamesBy, allFreeNamesBy_inlined hx args]
  | .choice c t e => by
    rw [inlined, freeNamesBy, freeNamesBy, freeNamesBy_inlined hx c, freeNamesBy_inlined hx t,
      freeNamesBy_inlined hx e]

theorem allFreeNamesBy_inlined [LawfulMonad m] (hx : behind x = f.freeNamesBy behind) :
    ∀ es : List Expr,
    Expr.allFreeNamesBy behind (Expr.allInlined folds x f es) = Expr.allFreeNamesBy behind es
  | [] => by rw [allInlined]
  | e :: es => by
    rw [allInlined, allFreeNamesBy, allFreeNamesBy, freeNamesBy_inlined hx e,
      allFreeNamesBy_inlined hx es]

end

end

end Expr

/-! ### Tokens -/

/-- Tokens with others in the place of every identifier of a name. -/
def Token.inlined (x : String) (group tokens : List Token) : List Token :=
  tokens.flatMap fun t => if Parser.textOf? .identifier t = some x then group else [t]

namespace Token

variable {x : String} {group : List Token}

theorem inlined_append (tokens tokens' : List Token) :
    inlined x group (tokens ++ tokens') = inlined x group tokens ++ inlined x group tokens' :=
  List.flatMap_append

/-- Only identifiers give way. -/
theorem inlined_cons_of_kind {t : Token} (h : t.kind ≠ .identifier) (tokens : List Token) :
    inlined x group (t :: tokens) = t :: inlined x group tokens := by
  rw [inlined, List.flatMap_cons, Parser.textOf?, if_neg h]
  rfl

end Token

namespace Parser

variable {options : ParserOptions} {x : String} {f : Expr} {group : List Token}

theorem Negates.inlined {e e' : Expr} (h : Negates options e e') :
    Negates options (Expr.inlined options.foldsSigns x f e)
      (Expr.inlined options.foldsSigns x f e') := by
  rw [negates_iff] at h ⊢
  rw [h, Expr.inlined_negated]

theorem Applies.inlined {name : String} {args : List Expr} {e : Expr}
    (h : Applies options name args e) :
    Applies options name (Expr.allInlined options.foldsSigns x f args)
      (Expr.inlined options.foldsSigns x f e) := by
  cases h with
  | choice c t e => exact .choice _ _ _
  | choiceOrFalse c t => exact .choiceOrFalse _ _
  | call hname hfound haccepts =>
    exact .call hname hfound (by rwa [Expr.length_allInlined])

/-- An identifier token derives what takes its place. -/
theorem derives_inlined_identifier (hgroup : Derives options .primary group f) {t : Token}
    (hkind : t.kind = .identifier) : Derives options .primary (Token.inlined x group [t])
      (Expr.inlined options.foldsSigns x f (reference t.value)) := by
  rw [Token.inlined, List.flatMap_cons, List.flatMap_nil, List.append_nil, textOf?, if_pos hkind,
    reference]
  have h : Derives options .primary [t] (reference t.value) := .identifier hkind
  rw [reference] at h
  rcases htext : t.value.text? with - | name
  · rw [htext] at h
    exact h
  · rw [htext] at h
    show Derives options .primary (if some name = some x then group else [t])
      (Expr.inlined options.foldsSigns x f (.identifier name))
    rw [Expr.inlined]
    by_cases hname : name = x
    · rwa [if_pos hname, if_pos (congrArg some hname)]
    · rwa [if_neg hname, if_neg (mt Option.some.inj hname)]

mutual

/-- **What derives a tree derives the tree with the formula in the place of the name**, after the
same replacement among the tokens. -/
theorem Derives.inlined (hgroup : Derives options .primary group f) {level : Level}
    {ts : List Token} {e : Expr} : Derives options level ts e →
      Derives options level (Token.inlined x group ts) (Expr.inlined options.foldsSigns x f e)
  | .additive h => .additive (Derives.inlined hgroup h)
  | .multiplicative h => .multiplicative (Derives.inlined hgroup h)
  | .power h => .power (Derives.inlined hgroup h)
  | .signed h => .signed (Derives.inlined hgroup h)
  | .primary h => .primary (Derives.inlined hgroup h)
  | .compare hl hkind hop hr => by
    rw [Token.inlined_append, Token.inlined_cons_of_kind (by rw [hkind]; nofun)]
    exact .compare (Derives.inlined hgroup hl) hkind hop (Derives.inlined hgroup hr)
  | .add hl hop ht hr => by
    rw [Token.inlined_append, Token.inlined_cons_of_kind (by rw [ht.1]; nofun)]
    exact .add (Derives.inlined hgroup hl) hop ht (Derives.inlined hgroup hr)
  | .multiply hl hop ht hr => by
    rw [Token.inlined_append, Token.inlined_cons_of_kind (by rw [ht.1]; nofun)]
    exact .multiply (Derives.inlined hgroup hl) hop ht (Derives.inlined hgroup hr)
  | .raise hl ht hr => by
    rw [Token.inlined_append, Token.inlined_cons_of_kind (by rw [ht.1]; nofun)]
    exact .raise (Derives.inlined hgroup hl) ht (Derives.inlined hgroup hr)
  | .plus ht h => by
    rw [Token.inlined_cons_of_kind (by rw [ht.1]; nofun)]
    exact .plus ht (Derives.inlined hgroup h)
  | .minus ht h hneg => by
    rw [Token.inlined_cons_of_kind (by rw [ht.1]; nofun)]
    exact .minus ht (Derives.inlined hgroup h) hneg.inlined
  | .literal hkind => by
    rw [Token.inlined_cons_of_kind (by rintro h; simp [h] at hkind)]
    exact .literal hkind
  -- only here a token is replaced: the others are no identifiers
  | .identifier hkind => derives_inlined_identifier hgroup hkind
  | .group hl h hr => by
    rw [Token.inlined_cons_of_kind (by rw [hl]; nofun), Token.inlined_append,
      Token.inlined_cons_of_kind (by rw [hr]; nofun)]
    exact .group hl (Derives.inlined hgroup h) hr
  | .callEmpty hf hname hl hr happly => by
    rw [Token.inlined_cons_of_kind (by rw [hf]; nofun),
      Token.inlined_cons_of_kind (by rw [hl]; nofun),
      Token.inlined_cons_of_kind (by rw [hr]; nofun)]
    exact .callEmpty hf hname hl hr happly.inlined
  | .call hf hname hl hargs hr happly => by
    rw [Token.inlined_cons_of_kind (by rw [hf]; nofun),
      Token.inlined_cons_of_kind (by rw [hl]; nofun), Token.inlined_append,
      Token.inlined_cons_of_kind (by rw [hr]; nofun)]
    exact .call hf hname hl (DerivesAll.inlined hgroup hargs) hr happly.inlined

theorem DerivesAll.inlined (hgroup : Derives options .primary group f) {ts : List Token}
    {es : List Expr} : DerivesAll options ts es →
      DerivesAll options (Token.inlined x group ts) (Expr.allInlined options.foldsSigns x f es)
  | .last h => .last (Derives.inlined hgroup h)
  | .next h ht hs => by
    rw [Token.inlined_append, Token.inlined_cons_of_kind (by rw [ht]; nofun)]
    exact .next (Derives.inlined hgroup h) ht (DerivesAll.inlined hgroup hs)

end

end Parser

/-! ### Stored formulas -/

namespace Expr

variable {memory : Memory} {x : String} {v : Value} {f : Expr} {folds : Bool}

/-- In an acyclic memory a formula may take the place of its name: the value stays. -/
theorem evalWithin_inlined {m : Type → Type} [Monad m] [LawfulMonad m] [MonadExceptOf Error m]
    {s : Surroundings m} (hlookup : ∀ name, s.lookup name = pure (Table.get? memory name))
    (hkey : ∀ key (formula formula' : Expr → m Value),
      (Expr.keyed key).evalBy s formula = (Expr.keyed key).evalBy s formula')
    (hacyclic : memory.IsAcyclic) (hv : Table.get? memory x = some v) (hf : v.expr? = some f)
    (e : Expr) :
    (inlined folds x f e).evalWithin s memory.length = e.evalWithin s memory.length := by
  have hlt : (memory.reached f).card < memory.length := hacyclic.card_reached_lt_length hv hf
  obtain ⟨depth, hdepth⟩ : ∃ depth, memory.length = depth + 1 := ⟨memory.length - 1, by omega⟩
  rw [hdepth, evalWithin, evalWithin]
  refine evalBy_inlined ?_ e
  calc (Expr.identifier x).evalBy s (evalWithin s depth)
      = f.evalWithin s depth := by
        rw [evalBy, hlookup, hv, pure_bind]
        simp only [Value.followed, hf]
    _ = f.evalWithin s (depth + 1) :=
        (evalWithin_succ_of_isAcyclic hlookup hkey hacyclic (by omega)).symm
    _ = f.evalBy s (evalWithin s depth) := by rw [evalWithin]

/-- In an acyclic memory a formula may take the place of its name: the free names stay. -/
theorem freeNamesIn_inlined (hacyclic : memory.IsAcyclic) (hv : Table.get? memory x = some v)
    (hf : v.expr? = some f) (e : Expr) :
    (inlined folds x f e).freeNamesIn memory = e.freeNamesIn memory := by
  have hlt : (memory.reached f).card < memory.length := hacyclic.card_reached_lt_length hv hf
  obtain ⟨depth, hdepth⟩ : ∃ depth, memory.length = depth + 1 := ⟨memory.length - 1, by omega⟩
  rw [freeNamesIn, freeNamesIn, hdepth]
  refine freeNamesBy_inlined ?_ e
  rw [Memory.namesBehind_succ hv hf]
  exact (freeNamesBy_succ_of_isAcyclic hacyclic (by omega)).symm

/-- **A stored formula means its own text in parentheses.** Where the name `x` is bound to the tree
of a text in an acyclic memory, the tokens of this text may stand in parentheses in the place of
every identifier `x` of another text: they form a tree, and it has the value and the free names of
the tree of this other text. -/
theorem ofTokens_inlined {lexer : LexerOptions} {parser : ParserOptions} {text inner : String}
    {tokens formula : List Token} {e : Expr}
    (hscan : Token.scan lexer text = .ok tokens) (he : Expr.ofText lexer parser text = .ok e)
    (hscanInner : Token.scan lexer inner = .ok formula)
    (hf : Expr.ofText lexer parser inner = .ok f)
    (hacyclic : memory.IsAcyclic) (hv : Table.get? memory x = some v) (hformula : v.expr? = some f)
    {l r : Token} (hl : l.kind = .leftParen) (hr : r.kind = .rightParen) :
    ∃ e', Expr.ofTokens parser (Token.inlined x (l :: (formula ++ [r])) tokens) = .ok e' ∧
      (∀ sheet, e'.valueIn sheet memory = e.valueIn sheet memory) ∧
      (∀ {σ : Type} (call : Function → List Value → Stateful σ Value),
        e'.evalWithin (memory.surroundingsWith call) memory.length =
          e.evalWithin (memory.surroundingsWith call) memory.length) ∧
      e'.freeNamesIn memory = e.freeNamesIn memory := by
  rw [ofText, hscan] at he
  rw [ofText, hscanInner] at hf
  have hgroup : Parser.Derives parser .primary (l :: (formula ++ [r])) f :=
    .group hl (derives_of_ofTokens hf) hr
  refine ⟨inlined parser.foldsSigns x f e,
    ofTokens_of_derives (Parser.Derives.inlined hgroup (derives_of_ofTokens he)), fun sheet => ?_,
    fun call => ?_, freeNamesIn_inlined hacyclic hv hformula e⟩
  · refine evalWithin_inlined (fun _ => rfl) (fun key formula formula' => ?_) hacyclic hv hformula e
    -- a key that is no text is in no memory
    rw [evalBy, evalBy]
    by_cases hkey : key.isHashable
    · simp only [Memory.surroundings, if_pos hkey, pure_bind]
    · simp only [Memory.surroundings, if_neg hkey]
      rfl
  · refine evalWithin_inlined (fun _ => rfl) (fun key formula formula' => ?_) hacyclic hv hformula e
    rw [Memory.evalBy_keyed, Memory.evalBy_keyed]

/-- A memory with a formula over the name of another one. -/
def stacked : Memory :=
  [("a", .node (.binary .add (.identifier "b") (.literal (.int 1)))),
   ("b", .node (.literal (.int 3)))]

/-- The tokens of `-b - a`. -/
def negatedDifference : List Token :=
  [⟨.operator, .text "-", 0⟩, ⟨.identifier, .text "b", 1⟩, ⟨.operator, .text "-", 3⟩,
   ⟨.identifier, .text "a", 5⟩]

/-- With the formula `3` in the place of `b` the minus of `-b - a` is folded, and the value is the
same. -/
theorem ofTokens_inlined_negatedDifference : stacked.IsAcyclic ∧
    ∃ e', Expr.ofTokens ⟨fun _ => none, true⟩ (Token.inlined "b"
        [⟨.leftParen, .text "(", 0⟩, ⟨.number, .int 3, 0⟩, ⟨.rightParen, .text ")", 0⟩]
        negatedDifference) = .ok e' ∧
      e'.valueIn .empty stacked = .ok (.int (-7)) ∧ e'.freeNamesIn stacked = .ok [] := by
  have hacyclic : stacked.IsAcyclic := by
    refine Memory.isAcyclic_of_rank (fun name => if name = "a" then 1 else 0) ?_
    intro name v formula hv hformula z hz
    rcases List.mem_cons.mp (Table.mem_of_get? hv) with h | h
    · obtain ⟨rfl, rfl⟩ := Prod.mk.inj h
      obtain rfl := Option.some.inj hformula
      obtain rfl : z = "b" := by simpa [Expr.identifiers] using hz
      decide
    · obtain ⟨rfl, rfl⟩ := Prod.mk.inj (List.mem_singleton.mp h)
      obtain rfl := Option.some.inj hformula
      simp [Expr.identifiers] at hz
  have hscan : Token.scan .plain "-b - a" = .ok negatedDifference := by cbv
  have he : Expr.ofText .plain ⟨fun _ => none, true⟩ "-b - a" =
      .ok (.binary .sub (.negation (.identifier "b")) (.identifier "a")) := by cbv
  have hscanInner : Token.scan .plain "3" = .ok [⟨.number, .int 3, 0⟩] := by cbv
  have hf : Expr.ofText .plain ⟨fun _ => none, true⟩ "3" = .ok (.literal (.int 3)) := by cbv
  obtain ⟨e', he', hvalue, -, hfree⟩ := ofTokens_inlined hscan he hscanInner hf hacyclic
    (show Table.get? stacked "b" = some (.node (.literal (.int 3))) by cbv) rfl
    (show (Token.mk .leftParen (.text "(") 0).kind = .leftParen from rfl)
    (show (Token.mk .rightParen (.text ")") 0).kind = .rightParen from rfl)
  exact ⟨hacyclic, e', he', (hvalue .empty).trans (by cbv), hfree.trans (by cbv)⟩

end Expr

end Formulary
