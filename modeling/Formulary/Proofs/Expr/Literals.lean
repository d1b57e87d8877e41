import Formulary.Proofs.Expr.Parser

/-!
# The literals of what a text spells

A text spells numbers, truth values and texts, and changing a sign makes numbers of numbers. So the
literals of an expression that a text spells are plain (`Expr.isPlain_of_ofText`). None of them
holds an object, and a write into an object leaves such an expression as it is
(`Expr.receive_ofText`).
-/

namespace Formulary

mutual

/-- The values that stand in a tree. -/
def Expr.literals : Expr → List Value
  | .literal v => [v]
  | .given result _ => [result]
  | .identifier _ | .keyed _ | .asking .. => []
  | .negation e => e.literals
  | .binary _ l r => l.literals ++ r.literals
  | .call _ args => Expr.allLiterals args
  | .choice c t e => c.literals ++ (t.literals ++ e.literals)

/-- The values that stand in several trees. -/
def Expr.allLiterals : List Expr → List Value
  | [] => []
  | e :: es => e.literals ++ Expr.allLiterals es

end

/-! ### Writes into objects -/

section

variable {w : ObjectWrite}

mutual

/-- A write that leaves the literals of a tree alone leaves the tree alone. -/
theorem Expr.receive_of_literals : ∀ e : Expr, (∀ v ∈ e.literals, v.receive w = v) →
    e.receive w = e
  | .literal v, h => by
    rw [receive, h v List.mem_cons_self]
  | .given result needs, h => by
    rw [receive, h result List.mem_cons_self]
  | .identifier name, _ => by rw [receive]
  | .keyed key, _ => by rw [receive]
  | .asking f needs, _ => by rw [receive]
  | .negation e, h => by
    rw [receive, receive_of_literals e h]
  | .binary op l r, h => by
    rw [receive, receive_of_literals l fun v hv => h v (List.mem_append_left _ hv),
      receive_of_literals r fun v hv => h v (List.mem_append_right _ hv)]
  | .call f args, h => by
    rw [receive, allReceive_of_literals args h]
  | .choice c t e, h => by
    have h' := fun v hv => h v (List.mem_append_right _ hv)
    rw [receive, receive_of_literals c fun v hv => h v (List.mem_append_left _ hv),
      receive_of_literals t fun v hv => h' v (List.mem_append_left _ hv),
      receive_of_literals e fun v hv => h' v (List.mem_append_right _ hv)]

theorem Expr.allReceive_of_literals : ∀ es : List Expr,
    (∀ v ∈ Expr.allLiterals es, v.receive w = v) → Expr.allReceive w es = es
  | [], _ => by rw [allReceive]
  | e :: es, h => by
    rw [allReceive, receive_of_literals e fun v hv => h v (List.mem_append_left _ hv),
      allReceive_of_literals es fun v hv => h v (List.mem_append_right _ hv)]

end

theorem Value.IsPlain.receive {v : Value} (h : v.IsPlain) : v.receive w = v := by
  cases h <;> simp [Value.receive]

end

/-! ### Plain literals -/

namespace Parser

variable {options : ParserOptions}

/-- A minus before plain literals leaves them plain. -/
theorem Negates.isPlain {e e' : Expr} (h : Negates options e e')
    (he : ∀ v ∈ e.literals, v.IsPlain) : ∀ v ∈ e'.literals, v.IsPlain := by
  cases h with
  | folded hfolds hv =>
    intro v hv
    rw [List.mem_singleton.mp hv]
    exact Value.isPlain_ofNumber _
  | kept => exact he

/-- An application adds at most a truth value to the literals of its arguments. -/
theorem Applies.isPlain {name : String} {args : List Expr} {e : Expr}
    (h : Applies options name args e) (hargs : ∀ v ∈ Expr.allLiterals args, v.IsPlain) :
    ∀ v ∈ e.literals, v.IsPlain := by
  cases h with
  | choice c t e => simpa [Expr.literals, Expr.allLiterals] using hargs
  | choiceOrFalse c t =>
    intro v hv
    simp only [Expr.literals, List.mem_append, List.mem_singleton] at hv
    rcases hv with hv | hv | rfl
    · exact hargs v (by simp [Expr.allLiterals, hv])
    · exact hargs v (by simp [Expr.allLiterals, hv])
    · exact .bool false
  | call => exact hargs

mutual

/-- What is derived from tokens that the lexer makes has plain literals. -/
theorem Derives.isPlain {v : Value} {level : Level} {ts : List Token} {e : Expr} :
    Derives options level ts e → AreSpelled ts → v ∈ e.literals → v.IsPlain
  | .additive h, hs, hv | .multiplicative h, hs, hv | .power h, hs, hv | .signed h, hs, hv
  | .primary h, hs, hv => h.isPlain hs hv
  | .compare hl _ _ hr, hs, hv | .add hl _ _ hr, hs, hv | .multiply hl _ _ hr, hs, hv
  | .raise hl _ hr, hs, hv => by
    rcases List.mem_append.mp hv with hv | hv
    · exact hl.isPlain (fun t ht => hs t (by simp [ht])) hv
    · exact hr.isPlain (fun t ht => hs t (by simp [ht])) hv
  | .plus _ h, hs, hv => h.isPlain (fun t ht => hs t (by simp [ht])) hv
  | .minus _ h hneg, hs, hv =>
    hneg.isPlain (fun _ => h.isPlain (fun t ht => hs t (by simp [ht]))) _ hv
  | .literal _, hs, hv => by
    rw [List.mem_singleton.mp hv]
    exact (hs _ List.mem_cons_self).isPlain
  | .identifier _, _, hv => by
    rw [reference] at hv
    split at hv
    · cases hv
    · cases hv
  | .group _ h _, hs, hv => h.isPlain (fun t ht => hs t (by simp [ht])) hv
  | .callEmpty _ _ _ _ happly, _, hv => happly.isPlain (fun _ h => by cases h) _ hv
  | .call _ _ _ hargs _ happly, hs, hv =>
    happly.isPlain (fun _ => hargs.isPlain fun t ht => hs t (by simp [ht])) _ hv

theorem DerivesAll.isPlain {v : Value} {ts : List Token} {es : List Expr} :
    DerivesAll options ts es → AreSpelled ts → v ∈ Expr.allLiterals es → v.IsPlain
  | .last h, hs, hv => by
    rcases List.mem_append.mp hv with hv | hv
    · exact h.isPlain hs hv
    · cases hv
  | .next h _ hrest, hs, hv => by
    rcases List.mem_append.mp hv with hv | hv
    · exact h.isPlain (fun t ht => hs t (by simp [ht])) hv
    · exact hrest.isPlain (fun t ht => hs t (by simp [ht])) hv

end

end Parser

namespace Expr

variable {lexer : LexerOptions} {parser : ParserOptions} {text : String} {e : Expr}

/-- **The literals of an expression that a text spells are plain.** -/
theorem isPlain_of_ofText (h : ofText lexer parser text = .ok e) : ∀ v ∈ e.literals, v.IsPlain := by
  obtain ⟨tokens, hspelled, hderives⟩ := exists_derives_of_ofText h
  exact fun v hv => hderives.isPlain hspelled hv

/-- A write into an object does not concern an expression that a text spells. -/
theorem receive_ofText (h : ofText lexer parser text = .ok e) (w : ObjectWrite) :
    e.receive w = e :=
  receive_of_literals e fun v hv => (isPlain_of_ofText h v hv).receive

end Expr

end Formulary
