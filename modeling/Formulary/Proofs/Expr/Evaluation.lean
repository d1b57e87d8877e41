import Formulary.Expr.Evaluation
import Formulary.Proofs.Expr.Reads

/-!
# Two evaluations of one tree

The walk over a tree is written once for every monad, so it preserves every relation between the
computations of two monads that single steps preserve (`Expr.evalWithin_stepwise`): if the names
that are looked up, the functions that are called and the operators correspond, so do the values.
Where the relation holds of equal failures, operators always correspond (`Expr.evalWithin_rel`). A
property of single computations is the relation of a computation with itself, so it needs no walk of
its own.

Two relations are used on their own. Under equality the theorem says that a value depends on the
reached names only (`Expr.evalWithin_congr`); under "succeeds with the same value" it says that a
memory with more names keeps every value (`Expr.evalWithin_mono`).
-/

namespace Formulary

/-! ### The functions in a tree -/

mutual

/-- The functions that a value calls if it, or a leaf of it, is followed as a formula. -/
def Value.functions : Value → List Function
  | .node e => e.functions
  | .map entries => Value.entriesFunctions entries
  | .object _ content => content.functions
  | _ => []

/-- The functions that the values of a mapping call. -/
def Value.entriesFunctions : List (Value × Value) → List Function
  | [] => []
  | (_, v) :: rest => v.functions ++ Value.entriesFunctions rest

/-- The functions that a tree, or a tree that it has as a literal, calls. -/
def Expr.functions : Expr → List Function
  | .literal v => v.functions
  | .given result _ => result.functions
  | .asking f _ => [f]
  | .identifier _ | .keyed _ => []
  | .negation e => e.functions
  | .binary _ l r => l.functions ++ r.functions
  | .call f args => f :: Expr.allFunctions args
  | .choice c t e => c.functions ++ (t.functions ++ e.functions)

/-- The functions that several trees call. -/
def Expr.allFunctions : List Expr → List Function
  | [] => []
  | e :: es => e.functions ++ Expr.allFunctions es

end

theorem Value.functions_of_expr? {v : Value} {e : Expr} (h : v.expr? = some e) :
    v.functions = e.functions := by
  fun_induction Value.expr? v with
  | case1 e' =>
    obtain rfl := Option.some.inj h
    rw [functions]
  | case2 identity content ih =>
    rw [functions]
    exact ih h
  | case3 => cases h

/-! ### Related computations -/

/-- A relation between the computations of two monads that holds of equal answers, and that goes on
from step to step. Which failures it holds of is left open. -/
structure Stepwise (m m' : Type → Type) [Monad m] [Monad m'] where
  rel : {α : Type} → m α → m' α → Prop
  pure : ∀ {α : Type} (a : α), rel (Pure.pure a) (Pure.pure a)
  bind : ∀ {α β : Type} {x : m α} {y : m' α} {f : α → m β} {g : α → m' β},
    rel x y → (∀ a, rel (f a) (g a)) → rel (x >>= f) (y >>= g)

theorem Stepwise.followed {m m' : Type → Type} [Monad m] [Monad m'] (R : Stepwise m m')
    {formula : Expr → m Value} {formula' : Expr → m' Value} {v : Value}
    (h : ∀ e, v.expr? = some e → R.rel (formula e) (formula' e)) :
    R.rel (v.followed formula) (v.followed formula') := by
  simp only [Value.followed]
  rcases he : v.expr? with - | e
  · exact R.pure v
  · exact h e he

/-- A relation between the computations of two monads that holds of equal answers and equal
failures, and that goes on from step to step. -/
structure Correspondence (m m' : Type → Type) [Monad m] [MonadExceptOf Error m] [Monad m']
    [MonadExceptOf Error m'] where
  rel : {α : Type} → m α → m' α → Prop
  pure : ∀ {α : Type} (a : α), rel (Pure.pure a) (Pure.pure a)
  throw : ∀ {α : Type} (e : Error), rel (α := α) (MonadExcept.throw e) (MonadExcept.throw e)
  bind : ∀ {α β : Type} {x : m α} {y : m' α} {f : α → m β} {g : α → m' β},
    rel x y → (∀ a, rel (f a) (g a)) → rel (x >>= f) (y >>= g)

section

variable {m m' : Type → Type} [Monad m] [MonadExceptOf Error m] [Monad m'] [MonadExceptOf Error m']

/-- Whether a relation holds of what every operator gives, be it a value or a failure. -/
structure Stepwise.OfOperators (R : Stepwise m m') : Prop where
  neg : ∀ v : Value, R.rel (MonadExcept.ofExcept v.neg) (MonadExcept.ofExcept v.neg)
  apply : ∀ (op : Operator) (v w : Value),
    R.rel (MonadExcept.ofExcept (op.apply v w)) (MonadExcept.ofExcept (op.apply v w))

namespace Correspondence

variable (R : Correspondence m m')

/-- A correspondence, without what it says of failures. -/
def stepwise : Stepwise m m' where
  rel := R.rel
  pure := R.pure
  bind := R.bind

theorem ofExcept {α : Type} (result : Except Error α) :
    R.rel (MonadExcept.ofExcept result) (MonadExcept.ofExcept result) := by
  cases result with
  | ok a => exact R.pure a
  | error e => exact R.throw e

theorem ofOperators : R.stepwise.OfOperators where
  neg v := R.ofExcept v.neg
  apply op v w := R.ofExcept (op.apply v w)

theorem followed {formula : Expr → m Value} {formula' : Expr → m' Value} {v : Value}
    (h : ∀ e, v.expr? = some e → R.rel (formula e) (formula' e)) :
    R.rel (v.followed formula) (v.followed formula') :=
  R.stepwise.followed h

end Correspondence

section

variable (R : Stepwise m m') {s : Surroundings m} {s' : Surroundings m'}
variable {formula : Expr → m Value} {formula' : Expr → m' Value}

mutual

/-- One walk over a tree: related leaves, related operators and related calls give related
values. -/
theorem Expr.evalBy_stepwise (hop : R.OfOperators) : ∀ e : Expr,
    (∀ key ∈ e.keys, R.rel ((Expr.keyed key).evalBy s formula)
      ((Expr.keyed key).evalBy s' formula')) →
    (∀ name ∈ e.identifiers, R.rel ((Expr.identifier name).evalBy s formula)
      ((Expr.identifier name).evalBy s' formula')) →
    (∀ f ∈ e.functions, ∀ args, R.rel (s.call f args) (s'.call f args)) →
    R.rel (e.evalBy s formula) (e.evalBy s' formula')
  | .literal v, _, _, _ => by
    rw [evalBy, evalBy]
    exact R.pure v
  | .identifier name, _, hname, _ => hname name List.mem_cons_self
  | .keyed key, hkey, _, _ => hkey key List.mem_cons_self
  | .negation e, hkey, hname, hcall => by
    rw [evalBy, evalBy]
    exact R.bind (evalBy_stepwise hop e hkey hname hcall) hop.neg
  | .binary op l r, hkey, hname, hcall => by
    rw [evalBy, evalBy]
    refine R.bind (evalBy_stepwise hop l (fun key h => hkey key (List.mem_append_left _ h))
      (fun name h => hname name (List.mem_append_left _ h))
      (fun f h => hcall f (List.mem_append_left _ h))) fun v => ?_
    refine R.bind (evalBy_stepwise hop r (fun key h => hkey key (List.mem_append_right _ h))
      (fun name h => hname name (List.mem_append_right _ h))
      (fun f h => hcall f (List.mem_append_right _ h))) fun w => ?_
    exact hop.apply op v w
  | .call f args, hkey, hname, hcall => by
    rw [evalBy, evalBy]
    refine R.bind
      (evalAllBy_stepwise hop args hkey hname fun f h => hcall f (List.mem_cons_of_mem _ h)) ?_
    exact hcall f List.mem_cons_self
  | .choice c t e, hkey, hname, hcall => by
    rw [evalBy, evalBy]
    refine R.bind (evalBy_stepwise hop c (fun key h => hkey key (List.mem_append_left _ h))
      (fun name h => hname name (List.mem_append_left _ h))
      (fun f h => hcall f (List.mem_append_left _ h))) fun v => ?_
    have hkey' := fun key h => hkey key (List.mem_append_right _ h)
    have hname' := fun name h => hname name (List.mem_append_right _ h)
    have hcall' := fun f h => hcall f (List.mem_append_right _ h)
    split
    · exact evalBy_stepwise hop t (fun key h => hkey' key (List.mem_append_left _ h))
        (fun name h => hname' name (List.mem_append_left _ h))
        (fun f h => hcall' f (List.mem_append_left _ h))
    · exact evalBy_stepwise hop e (fun key h => hkey' key (List.mem_append_right _ h))
        (fun name h => hname' name (List.mem_append_right _ h))
        (fun f h => hcall' f (List.mem_append_right _ h))
  | .given result needs, _, _, _ => by
    rw [evalBy, evalBy]
    exact R.pure result
  | .asking f needs, _, _, hcall => by
    rw [evalBy, evalBy]
    exact hcall f List.mem_cons_self []

theorem Expr.evalAllBy_stepwise (hop : R.OfOperators) : ∀ es : List Expr,
    (∀ key ∈ Expr.allKeys es, R.rel ((Expr.keyed key).evalBy s formula)
      ((Expr.keyed key).evalBy s' formula')) →
    (∀ name ∈ Expr.allIdentifiers es, R.rel ((Expr.identifier name).evalBy s formula)
      ((Expr.identifier name).evalBy s' formula')) →
    (∀ f ∈ Expr.allFunctions es, ∀ args, R.rel (s.call f args) (s'.call f args)) →
    R.rel (Expr.evalAllBy s formula es) (Expr.evalAllBy s' formula' es)
  | [], _, _, _ => by
    rw [evalAllBy, evalAllBy]
    exact R.pure []
  | e :: es, hkey, hname, hcall => by
    rw [evalAllBy, evalAllBy]
    refine R.bind (evalBy_stepwise hop e (fun key h => hkey key (List.mem_append_left _ h))
      (fun name h => hname name (List.mem_append_left _ h))
      (fun f h => hcall f (List.mem_append_left _ h))) fun v => ?_
    refine R.bind (evalAllBy_stepwise hop es (fun key h => hkey key (List.mem_append_right _ h))
      (fun name h => hname name (List.mem_append_right _ h))
      (fun f h => hcall f (List.mem_append_right _ h))) fun vs => ?_
    exact R.pure (v :: vs)

end

/-- The value of a tree with formulas behind its names: if the good trees have related leaves and
calls, and lead to good trees only, they have related values. -/
theorem Expr.evalWithin_stepwise (s : Surroundings m) (s' : Surroundings m') (Good : Expr → Prop)
    (hop : R.OfOperators) (hdeep : R.rel (throw .tooDeep : m Value) (throw .tooDeep))
    (hkey : ∀ {formula : Expr → m Value} {formula' : Expr → m' Value} (key : Value),
      R.rel ((Expr.keyed key).evalBy s formula) ((Expr.keyed key).evalBy s' formula'))
    (hname : ∀ {formula : Expr → m Value} {formula' : Expr → m' Value} {e : Expr}, Good e →
      (∀ e', Good e' → R.rel (formula e') (formula' e')) → ∀ name ∈ e.identifiers,
        R.rel ((Expr.identifier name).evalBy s formula)
          ((Expr.identifier name).evalBy s' formula'))
    (hcall : ∀ {e : Expr}, Good e → ∀ f ∈ e.functions, ∀ args,
      R.rel (s.call f args) (s'.call f args))
    (depth : Nat) {e : Expr} (he : Good e) :
    R.rel (e.evalWithin s depth) (e.evalWithin s' depth) := by
  induction depth generalizing e with
  | zero =>
    rw [evalWithin, evalWithin]
    exact evalBy_stepwise R hop e (fun key _ => hkey key)
      (hname he fun e' _ => hdeep) (hcall he)
  | succ depth ih =>
    rw [evalWithin, evalWithin]
    exact evalBy_stepwise R hop e (fun key _ => hkey key)
      (hname he fun e' he' => ih he') (hcall he)

end

variable (R : Correspondence m m') {s : Surroundings m} {s' : Surroundings m'}

theorem Expr.evalBy_rel {formula : Expr → m Value} {formula' : Expr → m' Value} (e : Expr)
    (hkey : ∀ key ∈ e.keys, R.rel ((Expr.keyed key).evalBy s formula)
      ((Expr.keyed key).evalBy s' formula'))
    (hname : ∀ name ∈ e.identifiers, R.rel ((Expr.identifier name).evalBy s formula)
      ((Expr.identifier name).evalBy s' formula'))
    (hcall : ∀ f ∈ e.functions, ∀ args, R.rel (s.call f args) (s'.call f args)) :
    R.rel (e.evalBy s formula) (e.evalBy s' formula') :=
  evalBy_stepwise R.stepwise R.ofOperators e hkey hname hcall

/-- Under a correspondence, related names and calls are enough for related values. -/
theorem Expr.evalWithin_rel (s : Surroundings m) (s' : Surroundings m') (Good : Expr → Prop)
    (hkey : ∀ {formula : Expr → m Value} {formula' : Expr → m' Value} (key : Value),
      R.rel ((Expr.keyed key).evalBy s formula) ((Expr.keyed key).evalBy s' formula'))
    (hname : ∀ {formula : Expr → m Value} {formula' : Expr → m' Value} {e : Expr}, Good e →
      (∀ e', Good e' → R.rel (formula e') (formula' e')) → ∀ name ∈ e.identifiers,
        R.rel ((Expr.identifier name).evalBy s formula)
          ((Expr.identifier name).evalBy s' formula'))
    (hcall : ∀ {e : Expr}, Good e → ∀ f ∈ e.functions, ∀ args,
      R.rel (s.call f args) (s'.call f args))
    (depth : Nat) {e : Expr} (he : Good e) :
    R.rel (e.evalWithin s depth) (e.evalWithin s' depth) :=
  evalWithin_stepwise R.stepwise s s' Good R.ofOperators (R.throw .tooDeep) hkey hname hcall depth he

end

/-! ### Computations that may fail -/

section

variable {σ : Type}

/-- Computations on a state that may fail, and that keep then what was done before. -/
abbrev Stateful (σ : Type) := ExceptT Error (StateM σ)

namespace Stateful

variable {ε α β : Type}

theorem run_bind (x : ExceptT ε (StateM σ) α) (f : α → ExceptT ε (StateM σ) β) (k : σ) :
    (x >>= f).run k = match x.run k with
      | (.ok a, k') => (f a).run k'
      | (.error e, k') => (.error e, k') := by
  show (match x.run k with
    | (r, k') => ExceptT.bindCont f r k') = _
  rcases x.run k with ⟨e | a, k'⟩
  · rfl
  · rfl

/-- What two steps answer together: the second one goes on from where the first one succeeds. -/
theorem run_bind_eq_ok_iff {x : ExceptT ε (StateM σ) α} {f : α → ExceptT ε (StateM σ) β} {b : β}
    {k k'' : σ} : (x >>= f).run k = (.ok b, k'') ↔
      ∃ a k', x.run k = (.ok a, k') ∧ (f a).run k' = (.ok b, k'') := by
  rw [run_bind]
  rcases x.run k with ⟨e | a, k'⟩
  · exact ⟨nofun, nofun⟩
  · refine ⟨fun h => ⟨a, k', rfl, h⟩, ?_⟩
    rintro ⟨_, _, ⟨⟩, h⟩
    exact h

/-- What is kept up to the end of a step, and by the steps after it, is kept by them together. -/
theorem snd_run_bind {x : ExceptT ε (StateM σ) α} {f : α → ExceptT ε (StateM σ) β} {k : σ}
    {P : σ → Prop} (hx : P (x.run k).2) (hf : ∀ a k', P k' → P ((f a).run k').2) :
    P ((x >>= f).run k).2 := by
  rw [run_bind]
  rcases hrun : x.run k with ⟨e | a, k'⟩
  · rw [hrun] at hx
    exact hx
  · rw [hrun] at hx
    exact hf a k' hx

@[simp] theorem run_pure (a : α) (k : σ) :
    (pure a : ExceptT ε (StateM σ) α).run k = (.ok a, k) := rfl

@[simp] theorem run_throw (e : ε) (k : σ) :
    (throw e : ExceptT ε (StateM σ) α).run k = (.error e, k) := rfl

@[simp] theorem run_get (k : σ) : (get : ExceptT ε (StateM σ) σ).run k = (.ok k, k) := rfl

@[simp] theorem run_set (k k' : σ) :
    (set k' : ExceptT ε (StateM σ) PUnit).run k = (.ok ⟨⟩, k') := rfl

@[simp] theorem run_ofExcept (result : Except ε α) (k : σ) :
    (MonadExcept.ofExcept result : ExceptT ε (StateM σ) α).run k = (result, k) := by
  cases result with
  | ok a => rfl
  | error e => rfl

theorem run_tryCatch (x : ExceptT ε (StateM σ) α) (handle : ε → ExceptT ε (StateM σ) α) (k : σ) :
    (tryCatch x handle).run k = match x.run k with
      | (.ok a, k') => (.ok a, k')
      | (.error e, k') => (handle e).run k' := by
  show (ExceptT.tryCatch x handle) k = _
  simp only [ExceptT.tryCatch, ExceptT.mk, bind, StateT.bind, ExceptT.run]
  rcases (x k : Except ε α × σ) with ⟨e | a, k'⟩
  · rfl
  · rfl

end Stateful

/-- Whether a computation ends, whatever it answers, in a state that a relation allows after the one
in which it starts. -/
def Advances {ε α : Type} (R : σ → σ → Prop) (x : ExceptT ε (StateM σ) α) : Prop :=
  ∀ s, R s (x.run s).2

namespace Advances

variable {ε α β : Type} {R : σ → σ → Prop} [IsPreorder σ R]

theorem pure (a : α) : Advances R (Pure.pure a : ExceptT ε (StateM σ) α) :=
  fun s => Std.Refl.refl s

theorem throw (e : ε) : Advances R (MonadExcept.throw e : ExceptT ε (StateM σ) α) :=
  fun s => Std.Refl.refl s

theorem ofExcept (result : Except ε α) :
    Advances R (MonadExcept.ofExcept result : ExceptT ε (StateM σ) α) := fun s => by
  rw [Stateful.run_ofExcept]
  exact Std.Refl.refl s

theorem bind {x : ExceptT ε (StateM σ) α} {f : α → ExceptT ε (StateM σ) β} (hx : Advances R x)
    (hf : ∀ a, Advances R (f a)) : Advances R (x >>= f) := fun s =>
  Stateful.snd_run_bind (hx s) fun a s' hs => IsTrans.trans _ _ _ hs (hf a s')

omit [IsPreorder σ R] in
theorem get {f : σ → ExceptT ε (StateM σ) α} (hf : ∀ s, Advances R (f s)) :
    Advances R (do f (← MonadState.get)) := fun s => hf s s

theorem tryCatch {x : ExceptT ε (StateM σ) α} {handle : ε → ExceptT ε (StateM σ) α}
    (hx : Advances R x) (hhandle : ∀ e, Advances R (handle e)) :
    Advances R (MonadExcept.tryCatch x handle) := by
  intro s
  have hs := hx s
  rw [Stateful.run_tryCatch]
  rcases hrun : x.run s with ⟨e | a, s'⟩
  · rw [hrun] at hs
    exact IsTrans.trans _ _ _ hs (hhandle e s')
  · rw [hrun] at hs
    exact hs

/-- Advancing as a correspondence of a computation with itself. -/
def correspondence (R : σ → σ → Prop) [IsPreorder σ R] :
    Correspondence (Stateful σ) (Stateful σ) where
  rel x _ := Advances R x
  pure := pure
  throw := throw
  bind := bind

end Advances

/-! ### Fixed memories -/

/-- The surroundings of a fixed memory and functions of any kind. -/
def Memory.surroundingsWith (memory : Memory)
    (call : Function → List Value → Stateful σ Value) : Surroundings (Stateful σ) where
  lookup name := pure (Table.get? memory name)
  lookupKey key := if key.isHashable then pure none else throw .wrongType
  call := call

variable (call : Function → List Value → Stateful σ Value)
variable (formula : Expr → Stateful σ Value)

/-- What a name stands for in a fixed memory. -/
theorem Memory.evalBy_identifier (memory : Memory) (name : String) :
    (Expr.identifier name).evalBy (memory.surroundingsWith call) formula =
      match Table.get? memory name with
      | none => throw (.unbound [name] none)
      | some v => v.followed formula := by
  rw [Expr.evalBy]
  rfl

/-- A key that is no text stands for nothing in a memory. -/
theorem Memory.evalBy_keyed (memory : Memory) (key : Value) :
    (Expr.keyed key).evalBy (memory.surroundingsWith call) formula = throw .wrongType := by
  rw [Expr.evalBy]
  simp only [Memory.surroundingsWith]
  split
  · rfl
  · rfl

theorem Memory.evalBy_keyed_surroundings (sheet : Sheet) (memory : Memory) (key : Value)
    (formula : Expr → Except Error Value) :
    (Expr.keyed key).evalBy (memory.surroundings sheet) formula = throw .wrongType := by
  rw [Expr.evalBy]
  simp only [Memory.surroundings]
  split
  · rfl
  · rfl

/-- Equality as a correspondence. -/
def Correspondence.eq {m : Type → Type} [Monad m] [MonadExceptOf Error m] :
    Correspondence m m where
  rel := Eq
  pure _ := rfl
  throw _ := rfl
  bind := by
    rintro α β x _ f g rfl h
    rw [funext h]

/-- **Locality** in any surroundings: where two memories are looked up that agree on the names that
a tree reaches, and all else is the same, the tree has the same value. -/
theorem Expr.evalWithin_congr_of_lookup {m : Type → Type} [Monad m] [LawfulMonad m]
    [MonadExceptOf Error m] {s s' : Surroundings m} {memory other : Memory} {e : Expr}
    (hlookup : ∀ name, s.lookup name = pure (Table.get? memory name))
    (hlookup' : ∀ name, s'.lookup name = pure (Table.get? other name))
    (hkey : ∀ key (formula formula' : Expr → m Value),
      (Expr.keyed key).evalBy s formula = (Expr.keyed key).evalBy s' formula')
    (hcall : s.call = s'.call)
    (h : ∀ z, memory.Reaches e z → Table.get? memory z = Table.get? other z) (depth : Nat) :
    e.evalWithin s depth = e.evalWithin s' depth := by
  -- the good trees are those that reach no names but such on which the memories agree
  refine evalWithin_rel Correspondence.eq s s'
    (fun e' => ∀ z, memory.Reaches e' z → Table.get? memory z = Table.get? other z)
    (fun key => hkey key _ _) ?_ (fun _ f _ args => congrFun (congrFun hcall f) args) depth h
  intro formula formula' e' he' hformula name hname
  show (Expr.identifier name).evalBy s formula = (Expr.identifier name).evalBy s' formula'
  rw [evalBy, evalBy, hlookup, hlookup', pure_bind, pure_bind, ← he' name (.here hname)]
  rcases hv : Table.get? memory name with - | v
  · rfl
  · exact Correspondence.eq.followed fun e'' he'' => hformula e'' fun z hz =>
      he' z (.behind hname hv he'' hz)

/-- **Locality**: two memories that agree on the names that a tree reaches give it one value. -/
theorem Expr.evalWithin_congr {memory other : Memory} {e : Expr}
    (h : ∀ z, memory.Reaches e z → Table.get? memory z = Table.get? other z) (depth : Nat) :
    e.evalWithin (memory.surroundingsWith call) depth =
      e.evalWithin (other.surroundingsWith call) depth :=
  evalWithin_congr_of_lookup (fun _ => rfl) (fun _ => rfl)
    (fun key formula formula' => (memory.evalBy_keyed call formula key).trans
      (other.evalBy_keyed call formula' key).symm) rfl h depth

/-- Success with the same answer as a correspondence: where the first computation succeeds, the
second one does the same. -/
def Correspondence.succeeding :
    Correspondence (Stateful σ) (Stateful σ) where
  rel {α} x y := ∀ k (a : α) k', x.run k = (.ok a, k') → y.run k = (.ok a, k')
  pure _ _ _ _ h := h
  throw _ _ _ _ h := h
  bind := by
    intro α β x y f g hx hf k b k'' h
    obtain ⟨a, k', hk, hb⟩ := Stateful.run_bind_eq_ok_iff.mp h
    exact Stateful.run_bind_eq_ok_iff.mpr ⟨a, k', hx k a k' hk, hf a k' b k'' hb⟩

/-- **More names, the same value**: what a tree is worth in one memory it is worth in every memory
that keeps the names that it reaches as they are bound there. -/
theorem Expr.evalWithin_mono {memory other : Memory} {e : Expr}
    (h : ∀ z v, memory.Reaches e z → Table.get? memory z = some v → Table.get? other z = some v)
    (depth : Nat) {k k' : σ} {v : Value}
    (he : (e.evalWithin (memory.surroundingsWith call) depth).run k = (.ok v, k')) :
    (e.evalWithin (other.surroundingsWith call) depth).run k = (.ok v, k') := by
  refine evalWithin_rel Correspondence.succeeding (memory.surroundingsWith call)
    (other.surroundingsWith call) (fun e' => ∀ z, memory.Reaches e' z → memory.Reaches e z) ?_ ?_
    (fun _ _ _ _ _ _ _ h => h) depth (fun _ hz => hz) k v k' he
  · intro formula formula' key k v k' h
    rw [Memory.evalBy_keyed] at h ⊢
    exact h
  · intro formula formula' e' he' hformula name hname
    rw [Memory.evalBy_identifier, Memory.evalBy_identifier]
    rcases hv : Table.get? memory name with - | v
    · exact fun k v k' h => by cases h
    · rw [h name v (he' name (.here hname)) hv]
      refine Correspondence.followed Correspondence.succeeding fun e'' he'' => hformula e'' ?_
      exact fun z hz => he' z (.behind hname hv he'' hz)

end

end Formulary
