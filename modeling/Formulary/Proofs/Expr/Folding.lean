import Formulary.Proofs.Expr.Inlining

/-!
# Signs in literals

A minus before a number or a truth value is folded into the literal when it is read. A parser could
as well keep every minus as a negation and leave the signs to the evaluation. What it gives then is
the unfolded tree: where its negations are folded from the inside out (`Expr.folded`), it is the
tree of the folding parser. The two parsers go through the tokens in lockstep, level by level of the
grammar, so they also fail together and for the same reason (`Parser.isLockstep`).

Folding a negation keeps the value, since changing the sign of a number when it is read is changing
it when it is evaluated, and a literal has no names to lose. So the two trees mean the same in all
surroundings (`Expr.ofTokens_folding`).
-/

namespace Formulary

/-! ### Folding a tree -/

mutual

/-- An expression with the negations of numbers and truth values folded into the literals. -/
def Expr.folded : Expr → Expr
  | .literal v => .literal v
  | .identifier name => .identifier name
  | .keyed key => .keyed key
  | .negation e => Parser.negated true e.folded
  | .binary op l r => .binary op l.folded r.folded
  | .call f args => .call f (Expr.allFolded args)
  | .choice c t e => .choice c.folded t.folded e.folded
  | .given result needs => .given result needs
  | .asking f needs => .asking f needs

/-- Several expressions with their negations folded. -/
def Expr.allFolded : List Expr → List Expr
  | [] => []
  | e :: es => e.folded :: Expr.allFolded es

end

namespace Expr

mutual

/-- Putting a name in its own place does nothing but fold. -/
theorem inlined_self (x : String) : ∀ e : Expr, inlined true x (.identifier x) e = e.folded
  | .literal _ | .keyed _ | .given .. | .asking .. => rfl
  | .identifier name => by
    rw [inlined, folded]
    split
    · next h => rw [h]
    · rfl
  | .negation e => by rw [inlined, folded, inlined_self x e]
  | .binary _ l r => by rw [inlined, folded, inlined_self x l, inlined_self x r]
  | .call _ args => by rw [inlined, folded, allInlined_self x args]
  | .choice c t e => by
    rw [inlined, folded, inlined_self x c, inlined_self x t, inlined_self x e]

theorem allInlined_self (x : String) : ∀ es : List Expr,
    Expr.allInlined true x (.identifier x) es = Expr.allFolded es
  | [] => rfl
  | e :: es => by rw [allInlined, allFolded, inlined_self x e, allInlined_self x es]

end

theorem length_allFolded (es : List Expr) : (allFolded es).length = es.length := by
  rw [← allInlined_self "" es, length_allInlined]

/-! ### Meaning -/

/-- Whether two expressions mean the same: they have the same value or fail in the same way in all
surroundings, and they read the same whatever a name or another key stands for. -/
structure MeansSame (e e' : Expr) : Prop where
  evalWithin {m : Type → Type} [Monad m] [LawfulMonad m] [MonadExceptOf Error m]
    (s : Surroundings m) (depth : Nat) : e.evalWithin s depth = e'.evalWithin s depth
  freeNamesBy {m : Type → Type} [Monad m] [LawfulMonad m] (behind : String → m (List String)) :
    e.freeNamesBy behind = e'.freeNamesBy behind
  freeKeysBy (behind : Value → Except Error (List Value)) :
    e.freeKeysBy behind = e'.freeKeysBy behind

theorem evalBy_folded {m : Type → Type} [Monad m] [LawfulMonad m] [MonadExceptOf Error m]
    (s : Surroundings m) (formula : Expr → m Value) (e : Expr) :
    e.folded.evalBy s formula = e.evalBy s formula := by
  rw [← inlined_self "" e]
  exact evalBy_inlined rfl e

theorem freeNamesBy_folded {m : Type → Type} [Monad m] [LawfulMonad m]
    (behind : String → m (List String)) (e : Expr) :
    e.folded.freeNamesBy behind = e.freeNamesBy behind := by
  rw [← inlined_self "" e]
  exact freeNamesBy_inlined (by rw [freeNamesBy]) e

section

variable {behind : Value → Except Error (List Value)}

theorem freeKeysBy_negated (folds : Bool) (e : Expr) :
    (Parser.negated folds e).freeKeysBy behind = (Expr.negation e).freeKeysBy behind := by
  rcases Parser.negated_eq_or folds e with h | ⟨v, a, rfl, -, h⟩
  · rw [h]
  · rw [h, freeKeysBy, freeKeysBy, freeKeysBy]
    rfl

mutual

theorem freeKeysBy_folded : ∀ e : Expr, e.folded.freeKeysBy behind = e.freeKeysBy behind
  | .literal _ | .identifier _ | .keyed _ | .given .. | .asking .. => rfl
  | .negation e => by
    rw [folded, freeKeysBy_negated, freeKeysBy, freeKeysBy, freeKeysBy_folded e]
  | .binary _ l r => by
    rw [folded, freeKeysBy, freeKeysBy, freeKeysBy_folded l, freeKeysBy_folded r]
  | .call _ args => by rw [folded, freeKeysBy, freeKeysBy, allFreeKeysBy_folded args]
  | .choice c t e => by
    rw [folded, freeKeysBy, freeKeysBy, freeKeysBy_folded c, freeKeysBy_folded t,
      freeKeysBy_folded e]

theorem allFreeKeysBy_folded : ∀ es : List Expr,
    Expr.allFreeKeysBy behind (Expr.allFolded es) = Expr.allFreeKeysBy behind es
  | [] => rfl
  | e :: es => by
    rw [allFolded, allFreeKeysBy, allFreeKeysBy, freeKeysBy_folded e, allFreeKeysBy_folded es]

end

end

/-- Folding keeps the meaning. -/
theorem meansSame_folded (e : Expr) : MeansSame e.folded e where
  evalWithin s depth := by
    cases depth with
    | zero => exact evalBy_folded s _ e
    | succ depth => exact evalBy_folded s _ e
  freeNamesBy behind := freeNamesBy_folded behind e
  freeKeysBy _ := freeKeysBy_folded e

end Expr

/-! ### Parsers in lockstep -/

/-- One step after another, where the first ones and what follows them differ by a function on the
results. -/
theorem Except.bind_eq_map_bind {ε α β γ δ : Type} {f : α → β} {h : γ → δ} {x : Except ε β}
    {y : Except ε α} {g : β → Except ε δ} {k : α → Except ε γ} (hx : x = f <$> y)
    (hg : ∀ a, g (f a) = h <$> k a) : x >>= g = h <$> (y >>= k) := by
  rw [hx, bind_map_left, map_bind]
  exact bind_congr hg

namespace Parser

/-- Whether with a bound on the nesting of calls, the parser that folds signs gives at every level
of the grammar what the parser that keeps them gives, with the negations folded. -/
structure IsLockstep (find? : String → Option Function) (bound : Nat) : Prop where
  comparison (tokens : List Token) : comparison ⟨find?, true⟩ bound tokens =
    Prod.map Expr.folded id <$> comparison ⟨find?, false⟩ bound tokens
  additive (tokens : List Token) : additive ⟨find?, true⟩ bound tokens =
    Prod.map Expr.folded id <$> additive ⟨find?, false⟩ bound tokens
  additiveTail (left : Expr) (tokens : List Token) :
    additiveTail ⟨find?, true⟩ bound left.folded tokens =
      Prod.map Expr.folded id <$> additiveTail ⟨find?, false⟩ bound left tokens
  multiplicative (tokens : List Token) : multiplicative ⟨find?, true⟩ bound tokens =
    Prod.map Expr.folded id <$> multiplicative ⟨find?, false⟩ bound tokens
  multiplicativeTail (left : Expr) (tokens : List Token) :
    multiplicativeTail ⟨find?, true⟩ bound left.folded tokens =
      Prod.map Expr.folded id <$> multiplicativeTail ⟨find?, false⟩ bound left tokens
  power (tokens : List Token) : power ⟨find?, true⟩ bound tokens =
    Prod.map Expr.folded id <$> power ⟨find?, false⟩ bound tokens
  signed (tokens : List Token) : signed ⟨find?, true⟩ bound tokens =
    Prod.map Expr.folded id <$> signed ⟨find?, false⟩ bound tokens
  primary (tokens : List Token) : primary ⟨find?, true⟩ bound tokens =
    Prod.map Expr.folded id <$> primary ⟨find?, false⟩ bound tokens
  arguments (tokens : List Token) : arguments ⟨find?, true⟩ bound tokens =
    Prod.map Expr.allFolded id <$> arguments ⟨find?, false⟩ bound tokens
  argumentList (tokens : List Token) : argumentList ⟨find?, true⟩ bound tokens =
    Prod.map Expr.allFolded id <$> argumentList ⟨find?, false⟩ bound tokens

variable {find? : String → Option Function}

theorem isLockstep_zero : IsLockstep find? 0 where
  comparison _ := rfl
  additive _ := rfl
  additiveTail _ _ := rfl
  multiplicative _ := rfl
  multiplicativeTail _ _ := rfl
  power _ := rfl
  signed _ := rfl
  primary _ := rfl
  arguments _ := rfl
  argumentList _ := rfl

/-- A function is found and accepts its arguments whether they are folded or not. -/
theorem application_allFolded (name : String) (args : List Expr) :
    application ⟨find?, true⟩ name (Expr.allFolded args) =
      Expr.folded <$> application ⟨find?, false⟩ name args := by
  unfold application
  split
  · match args with
    | [] | [_] | [_, _] | [_, _, _] => rfl
    | _ :: _ :: _ :: _ :: rest =>
      rw [Expr.length_allFolded]
      rfl
  · dsimp only
    cases find? name with
    | none => rfl
    | some f =>
      rw [Expr.length_allFolded]
      dsimp only
      split
      · rfl
      · rfl

/-- Before a folded operand a sign is folded, and else it is kept. -/
theorem negated_folded (e : Expr) : negated true e.folded = (negated false e).folded := by
  have hkept : negated false e = .negation e := by
    cases e with
    | literal | identifier | keyed | negation | binary | call | choice | given | asking => rfl
  rw [hkept, Expr.folded]

section

variable {bound : Nat} (ih : IsLockstep find? bound) (tokens : List Token)
include ih

theorem lockstep_comparison : comparison ⟨find?, true⟩ (bound + 1) tokens =
    Prod.map Expr.folded id <$> comparison ⟨find?, false⟩ (bound + 1) tokens := by
  rw [comparison, comparison]
  refine Except.bind_eq_map_bind (ih.additive tokens) fun result => ?_
  obtain ⟨left, rest⟩ := result
  cases rest with
  | nil => rfl
  | cons t rest =>
    dsimp only [Prod.map, id]
    split
    · refine Except.bind_eq_map_bind (ih.additive rest) fun result => ?_
      obtain ⟨right, rest⟩ := result
      cases Operator.ofValue t.value with
      | error | ok => rfl
    · rfl

theorem lockstep_additive : additive ⟨find?, true⟩ (bound + 1) tokens =
    Prod.map Expr.folded id <$> additive ⟨find?, false⟩ (bound + 1) tokens := by
  rw [additive, additive]
  exact Except.bind_eq_map_bind (ih.multiplicative tokens) fun result =>
    ih.additiveTail result.1 result.2

theorem lockstep_additiveTail (left : Expr) :
    additiveTail ⟨find?, true⟩ (bound + 1) left.folded tokens =
      Prod.map Expr.folded id <$> additiveTail ⟨find?, false⟩ (bound + 1) left tokens := by
  cases tokens with
  | nil =>
    rw [additiveTail, additiveTail]
    rfl
  | cons t rest =>
    rw [additiveTail, additiveTail]
    split
    · next op _ =>
      exact Except.bind_eq_map_bind (ih.multiplicative rest) fun result =>
        ih.additiveTail (.binary op left result.1) result.2
    · rfl

theorem lockstep_multiplicative : multiplicative ⟨find?, true⟩ (bound + 1) tokens =
    Prod.map Expr.folded id <$> multiplicative ⟨find?, false⟩ (bound + 1) tokens := by
  rw [multiplicative, multiplicative]
  exact Except.bind_eq_map_bind (ih.power tokens) fun result =>
    ih.multiplicativeTail result.1 result.2

theorem lockstep_multiplicativeTail (left : Expr) :
    multiplicativeTail ⟨find?, true⟩ (bound + 1) left.folded tokens =
      Prod.map Expr.folded id <$> multiplicativeTail ⟨find?, false⟩ (bound + 1) left tokens := by
  cases tokens with
  | nil =>
    rw [multiplicativeTail, multiplicativeTail]
    rfl
  | cons t rest =>
    rw [multiplicativeTail, multiplicativeTail]
    split
    · next op _ =>
      exact Except.bind_eq_map_bind (ih.power rest) fun result =>
        ih.multiplicativeTail (.binary op left result.1) result.2
    · rfl

theorem lockstep_power : power ⟨find?, true⟩ (bound + 1) tokens =
    Prod.map Expr.folded id <$> power ⟨find?, false⟩ (bound + 1) tokens := by
  rw [power, power]
  refine Except.bind_eq_map_bind (ih.signed tokens) fun result => ?_
  obtain ⟨base, rest⟩ := result
  cases rest with
  | nil => rfl
  | cons t rest =>
    dsimp only [Prod.map, id]
    split
    · exact Except.bind_eq_map_bind (ih.power rest) fun _ => rfl
    · rfl

theorem lockstep_signed : signed ⟨find?, true⟩ (bound + 1) tokens =
    Prod.map Expr.folded id <$> signed ⟨find?, false⟩ (bound + 1) tokens := by
  cases tokens with
  | nil =>
    rw [signed, signed]
    exact ih.primary []
  | cons t rest =>
    rw [signed, signed]
    dsimp only
    split
    · refine Except.bind_eq_map_bind (ih.signed rest) fun result => ?_
      obtain ⟨operand, rest⟩ := result
      -- the sign that one parser folds here is kept by the other one, for the tree to fold
      rw [Prod.map, negated_folded]
      rfl
    · exact ih.signed rest
    · exact ih.primary (t :: rest)

theorem lockstep_primary : primary ⟨find?, true⟩ (bound + 1) tokens =
    Prod.map Expr.folded id <$> primary ⟨find?, false⟩ (bound + 1) tokens := by
  cases tokens with
  | nil =>
    rw [primary, primary]
    rfl
  | cons t rest =>
    rw [primary, primary]
    split
    · rfl
    · rfl
    · rfl
    · rw [reference]
      split
      · rfl
      · rfl
    · refine Except.bind_eq_map_bind (ih.arguments rest) fun result => ?_
      obtain ⟨args, rest⟩ := result
      rcases functionName t with error | name
      · rfl
      · show (application _ name _ >>= _) = _ <$> (application _ name _ >>= _)
        exact Except.bind_eq_map_bind (application_allFolded name args) fun _ => rfl
    · refine Except.bind_eq_map_bind (ih.comparison rest) fun result => ?_
      obtain ⟨e, rest⟩ := result
      dsimp only [Prod.map, id]
      cases expect .rightParen ')' rest with
      | error | ok => rfl
    · rfl

theorem lockstep_arguments : arguments ⟨find?, true⟩ (bound + 1) tokens =
    Prod.map Expr.allFolded id <$> arguments ⟨find?, false⟩ (bound + 1) tokens := by
  rw [arguments, arguments]
  cases expect .leftParen '(' tokens with
  | error => rfl
  | ok rest =>
    cases rest with
    | nil => exact ih.argumentList []
    | cons t rest =>
      show (if t.kind = .rightParen then _ else _) = _ <$> (if t.kind = .rightParen then _ else _)
      split
      · rfl
      · exact ih.argumentList (t :: rest)

theorem lockstep_argumentList : argumentList ⟨find?, true⟩ (bound + 1) tokens =
    Prod.map Expr.allFolded id <$> argumentList ⟨find?, false⟩ (bound + 1) tokens := by
  rw [argumentList, argumentList]
  refine Except.bind_eq_map_bind (ih.comparison tokens) fun result => ?_
  obtain ⟨first, rest⟩ := result
  cases rest with
  | nil => rfl
  | cons t rest =>
    dsimp only [Prod.map, id]
    split
    · exact Except.bind_eq_map_bind (ih.argumentList rest) fun _ => rfl
    · cases expect .rightParen ')' (t :: rest) with
      | error | ok => rfl

end

/-- **Two parsers in lockstep**, with any bound on the nesting of calls. -/
theorem isLockstep (bound : Nat) : IsLockstep find? bound := by
  induction bound with
  | zero => exact isLockstep_zero
  | succ bound ih => exact {
      comparison := lockstep_comparison ih
      additive := lockstep_additive ih
      additiveTail := fun left tokens => lockstep_additiveTail ih tokens left
      multiplicative := lockstep_multiplicative ih
      multiplicativeTail := fun left tokens => lockstep_multiplicativeTail ih tokens left
      power := lockstep_power ih
      signed := lockstep_signed ih
      primary := lockstep_primary ih
      arguments := lockstep_arguments ih
      argumentList := lockstep_argumentList ih }

end Parser

namespace Expr

/-- The parser that folds signs gives what the one that keeps them gives, with the negations
folded. -/
theorem ofTokens_eq_map_folded (find? : String → Option Function) (tokens : List Token) :
    ofTokens ⟨find?, true⟩ tokens = folded <$> ofTokens ⟨find?, false⟩ tokens := by
  rw [ofTokens, ofTokens]
  split
  · rfl
  · refine Except.bind_eq_map_bind ((Parser.isLockstep _).comparison tokens) fun result => ?_
    obtain ⟨e, rest⟩ := result
    cases rest with
    | nil | cons => rfl

/-- **Folding signs into literals keeps the meaning.** For all tokens, the parser that folds a minus
into the number behind it and the one that keeps every minus as a negation both fail in the same
way, or both give a tree. The two trees mean the same: they have the same value, or fail in the same
way, in all surroundings and so against every memory and mapping, and they have the same free names
and keys, whatever is bound and against every memory and mapping. -/
theorem ofTokens_folding (find? : String → Option Function) (tokens : List Token) :
    (∃ error, ofTokens ⟨find?, true⟩ tokens = .error error ∧
      ofTokens ⟨find?, false⟩ tokens = .error error) ∨
    ∃ e e', ofTokens ⟨find?, true⟩ tokens = .ok e ∧ ofTokens ⟨find?, false⟩ tokens = .ok e' ∧
      e.MeansSame e' ∧
      (∀ sheet memory, e.valueIn sheet memory = e'.valueIn sheet memory) ∧
      (∀ sheet bindings, e.valueAt sheet bindings = e'.valueAt sheet bindings) ∧
      e.freeNames = e'.freeNames ∧
      (∀ memory, e.freeNamesIn memory = e'.freeNamesIn memory) ∧
      e.freeKeys = e'.freeKeys ∧
      ∀ bindings, e.freeKeysIn bindings = e'.freeKeysIn bindings := by
  rw [ofTokens_eq_map_folded]
  rcases ofTokens ⟨find?, false⟩ tokens with error | e
  · exact .inl ⟨error, rfl, rfl⟩
  · have h := meansSame_folded e
    exact .inr ⟨e.folded, e, rfl, rfl, h, fun _ _ => h.evalWithin _ _, fun _ _ => h.evalWithin _ _,
      congrArg Id.run (h.freeNamesBy _), fun _ => h.freeNamesBy _, h.freeKeysBy _,
      fun _ => h.freeKeysBy _⟩

end Expr

end Formulary
