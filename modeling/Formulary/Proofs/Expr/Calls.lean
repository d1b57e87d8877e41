import Formulary.Proofs.Expr.Evaluation

/-!
# Where formulas come from

No operator or builtin makes a formula or a mapping: what they give is inert
(`Operator.isInert_apply`, `Builtin.isInert_apply`), and of the functions of a spreadsheet library
that is an assumption (`Sheet.IsInert`). So a formula that an evaluation gives was in its tree or in
its memory, and calls no functions but those that were called there (`Expr.yields_evalWithin`).
-/

namespace Formulary

/-! ### Inert values -/

/-- Whether a value is neither a formula nor a mapping. -/
structure Value.IsInert (v : Value) : Prop where
  expr? : v.expr? = Option.none
  isMap : v.isMap = false

namespace Value

theorem functions_of_isInert : ∀ {v : Value}, v.IsInert → v.functions = []
  | .node e, h => absurd h.expr? (by simp [expr?])
  | .map entries, h => absurd h.isMap (by simp [isMap, entries?])
  | .object identity content, h => by
    rw [functions]
    exact functions_of_isInert ⟨h.expr?, h.isMap⟩
  | .none, _ | .bool _, _ | .int _, _ | .float _, _ | .complex _, _ | .text _, _ | .list _, _
  | .tuple _, _ | .symbol _, _ | .undefined, _ | .cell .., _ => by simp [functions]

theorem isInert_ofNumber (a : Number) : (ofNumber a).IsInert := by
  cases a with
  | int n => exact ⟨rfl, rfl⟩
  | float x => exact ⟨rfl, rfl⟩

theorem isInert_ofScalar (a : Scalar) : (ofScalar a).IsInert := by
  cases a with
  | real a => exact isInert_ofNumber a
  | complex z => exact ⟨rfl, rfl⟩

theorem isInert_of_number? {v : Value} {a : Number} (h : v.number? = some a) : v.IsInert := by
  fun_induction number? v with
  | case4 identity content ih => exact ⟨(ih h).expr?, (ih h).isMap⟩
  | case5 => cases h
  | _ => exact ⟨rfl, rfl⟩

end Value

theorem Except.isInert_pure {v u : Value} (hv : v.IsInert)
    (h : (pure v : Except Error Value) = .ok u) : u.IsInert := by
  obtain rfl := Except.ok.inj h
  exact hv

theorem Except.isInert_map {α : Type} {f : α → Value} (hf : ∀ a, (f a).IsInert)
    {x : Except Error α} {u : Value} (h : x.map f = .ok u) : u.IsInert := by
  cases x with
  | error e => cases h
  | ok a =>
    obtain rfl := Except.ok.inj h
    exact hf a

theorem Except.isInert_bind {α : Type} {f : α → Except Error Value}
    (hf : ∀ a u, f a = .ok u → u.IsInert) {x : Except Error α} {u : Value}
    (h : x >>= f = .ok u) : u.IsInert := by
  obtain ⟨a, -, ha⟩ := Except.bind_eq_ok_iff.mp h
  exact hf a u ha

/-! ### Operators -/

namespace Value

variable {v w u : Value}

theorem isInert_scalarOperation {operation : Scalar → Scalar → Except Error Scalar}
    (h : scalarOperation operation v w = .ok u) : u.IsInert := by
  rw [scalarOperation] at h
  split at h
  · exact Except.isInert_map isInert_ofScalar h
  · cases h

theorem isInert_neg (h : v.neg = .ok u) : u.IsInert := by
  rw [neg] at h
  split at h
  · obtain rfl := Except.ok.inj h
    exact isInert_ofScalar _
  · cases h

theorem isInert_add (h : v.add w = .ok u) : u.IsInert := by
  rw [add] at h
  split at h
  · obtain rfl := Except.ok.inj h
    exact ⟨rfl, rfl⟩
  · obtain rfl := Except.ok.inj h
    exact ⟨rfl, rfl⟩
  · obtain rfl := Except.ok.inj h
    exact ⟨rfl, rfl⟩
  · exact isInert_scalarOperation h

theorem isInert_repeat? {count : Int} {result : Except Error Value}
    (hr : v.repeat? count = some result) (h : result = .ok u) : u.IsInert := by
  rw [repeat?] at hr
  split at hr
  all_goals cases hr
  -- a text, a list and a tuple are repeated alike
  all_goals
    refine Except.isInert_bind (fun _ u' hu => ?_) h
    obtain rfl := Except.ok.inj hu
    exact ⟨rfl, rfl⟩

theorem isInert_repetition? {result : Except Error Value}
    (hr : repetition? v w = some result) (h : result = .ok u) : u.IsInert := by
  rw [repetition?] at hr
  obtain ⟨count, -, hr⟩ := Option.bind_eq_some_iff.mp hr
  split at hr
  · exact isInert_repeat? hr h
  · obtain ⟨-, -, rfl⟩ := Option.map_eq_some_iff.mp hr
    cases h

theorem isInert_mul (h : v.mul w = .ok u) : u.IsInert := by
  rw [mul] at h
  split at h
  · next result hr =>
    rcases Option.or_eq_some_iff.mp hr with hr | ⟨-, hr⟩
    · exact isInert_repetition? hr h
    · exact isInert_repetition? hr h
  · exact isInert_scalarOperation h

theorem isInert_mod (h : v.mod w = .ok u) : u.IsInert := by
  rw [mod] at h
  split at h
  · exact Except.isInert_map (fun _ => ⟨rfl, rfl⟩) h
  · exact isInert_scalarOperation h

theorem isInert_ordered {accepted : List Ordering} (h : ordered accepted v w = .ok u) :
    u.IsInert := by
  refine Except.isInert_bind (fun _ u' hu => ?_) h
  obtain rfl := Except.ok.inj hu
  exact ⟨rfl, rfl⟩

end Value

theorem Operator.isInert_apply {op : Operator} {v w u : Value} (h : op.apply v w = .ok u) :
    u.IsInert := by
  cases op with
  | add => exact Value.isInert_add h
  | mul => exact Value.isInert_mul h
  | mod => exact Value.isInert_mod h
  | sub | div | pow => exact Value.isInert_scalarOperation h
  | concat | eq | ne =>
    obtain rfl := Except.ok.inj h
    exact ⟨rfl, rfl⟩
  | lt | gt | le | ge => exact Value.isInert_ordered h

/-! ### Functions -/

mutual

theorem Value.isInert_of_mem_leavesAsGiven : ∀ v : Value,
    ∀ leaf ∈ v.leavesAsGiven, leaf.value.IsInert
  | .list items => by
    rw [leavesAsGiven]
    exact isInert_of_mem_allLeavesAsGiven items
  | .tuple items => by
    rw [leavesAsGiven]
    exact isInert_of_mem_allLeavesAsGiven items
  | .none | .bool _ | .int _ | .float _ | .complex _ | .text _ | .map _ | .symbol _ | .undefined
  | .node _ | .cell .. | .object .. => by
    intro leaf hleaf
    simp only [leavesAsGiven, Option.mem_toList, numericLeaf?] at hleaf
    obtain ⟨a, ha, rfl⟩ := Option.map_eq_some_iff.mp hleaf
    dsimp only
    split
    · exact isInert_ofNumber a
    · exact isInert_of_number? ha

theorem Value.isInert_of_mem_allLeavesAsGiven : ∀ vs : List Value,
    ∀ leaf ∈ Value.allLeavesAsGiven vs, leaf.value.IsInert
  | [] => by simp [allLeavesAsGiven]
  | v :: vs => by
    intro leaf hleaf
    rw [allLeavesAsGiven, List.mem_append] at hleaf
    rcases hleaf with hleaf | hleaf
    · exact isInert_of_mem_leavesAsGiven v leaf hleaf
    · exact isInert_of_mem_allLeavesAsGiven vs leaf hleaf

end

namespace Builtin

theorem bestOf_mem (isBetter : Number → Number → Bool) (first : NumericLeaf)
    (rest : List NumericLeaf) : bestOf isBetter first rest ∈ first :: rest := by
  induction rest generalizing first with
  | nil => simp [bestOf]
  | cons leaf rest ih =>
    rw [bestOf, List.foldl_cons]
    split
    · exact List.mem_cons_of_mem _ (ih leaf)
    · rcases List.mem_cons.mp (ih first) with h | h
      · rw [bestOf] at h
        rw [h]
        exact List.mem_cons_self
      · exact List.mem_cons_of_mem _ (List.mem_cons_of_mem _ h)

theorem isInert_best {function : String} {isBetter : Number → Number → Bool} {args : List Value}
    {u : Value} (h : (do
      let (first, rest) ← someLeaves function args
      return (bestOf isBetter first rest).value : Except Error Value) = .ok u) : u.IsInert := by
  rw [someLeaves] at h
  split at h
  · cases h
  · next first rest hleaves =>
    obtain rfl := Except.ok.inj h
    refine Value.isInert_of_mem_allLeavesAsGiven args _ ?_
    rw [hleaves]
    exact bestOf_mem isBetter first rest

theorem isInert_logical {function : String} {combine : List Value → Bool} {args : List Value}
    {u : Value} (h : logical function combine args = .ok u) : u.IsInert := by
  rw [logical] at h
  split at h
  · cases h
  · obtain rfl := Except.ok.inj h
    exact ⟨rfl, rfl⟩

theorem isInert_apply {b : Builtin} {args : List Value} {u : Value} (h : b.apply args = .ok u) :
    u.IsInert := by
  unfold apply at h
  split at h
  · exact Except.isInert_map Value.isInert_ofNumber h
  · exact isInert_best h
  · exact isInert_best h
  · exact Except.isInert_map Value.isInert_ofNumber h
  · exact Except.isInert_pure ⟨rfl, rfl⟩ h
  · exact Except.isInert_map (fun _ => Value.isInert_ofNumber _) h
  · exact Except.isInert_map Value.isInert_ofNumber h
  · exact Except.isInert_map Value.isInert_ofNumber h
  · exact Except.isInert_map Value.isInert_ofNumber h
  · exact Except.isInert_map Value.isInert_ofNumber h
  · exact Except.isInert_map Value.isInert_ofNumber h
  · exact Except.isInert_map Value.isInert_ofNumber h
  · exact Except.isInert_bind (fun a _ h => Except.isInert_bind (fun k _ h =>
      Except.isInert_pure ⟨rfl, rfl⟩ h) h) h
  · exact Except.isInert_map Value.isInert_ofNumber h
  · exact Except.isInert_bind (fun a _ h => Except.isInert_bind (fun b _ h =>
      Except.isInert_bind (fun z _ h => Except.isInert_pure (Value.isInert_ofScalar z) h) h) h) h
  · exact Except.isInert_map Value.isInert_ofNumber h
  · exact Except.isInert_map Value.isInert_ofNumber h
  · exact isInert_logical h
  · exact isInert_logical h
  · exact Except.isInert_pure ⟨rfl, rfl⟩ h
  · exact Except.isInert_map (fun _ => ⟨rfl, rfl⟩) h
  · exact Except.isInert_map (fun _ => ⟨rfl, rfl⟩) h
  · exact Except.isInert_map (fun _ => ⟨rfl, rfl⟩) h
  · exact Except.isInert_map (fun _ => ⟨rfl, rfl⟩) h
  · exact Except.isInert_map (fun _ => ⟨rfl, rfl⟩) h
  · exact Except.isInert_pure ⟨rfl, rfl⟩ h
  · exact Except.isInert_pure ⟨rfl, rfl⟩ h
  · exact Except.isInert_pure ⟨rfl, rfl⟩ h
  · exact Except.isInert_pure ⟨rfl, rfl⟩ h
  · exact Except.isInert_pure ⟨rfl, rfl⟩ h
  · cases h

end Builtin

/-- What the item of an inert cell is. -/
def Value.HasInertItem (v : Value) : Prop :=
  ∀ size hasShape w, v.bare = .cell size hasShape (.yields w) → w.IsInert

theorem Value.isInert_wholeAsInteger {v : Value} (h : v.IsInert) : v.wholeAsInteger.IsInert := by
  rw [wholeAsInteger]
  split
  · split
    · split
      · exact ⟨rfl, rfl⟩
      · exact h
    · exact h
  · exact h

theorem Value.isInert_plainResult {raw u : Value} (hraw : raw.IsInert)
    (hitem : raw.HasInertItem) (h : raw.plainResult = .ok u) : u.IsInert := by
  rw [plainResult] at h
  split at h
  · next size hasShape item hcell =>
    split at h
    · cases item with
      | missing =>
        cases h
        exact isInert_wholeAsInteger hraw
      | fails fault =>
        cases fault with
        | other => cases h
        | badValue | wrongType =>
          cases h
          exact isInert_wholeAsInteger hraw
      | yields w =>
        cases h
        exact isInert_wholeAsInteger (hitem size hasShape w hcell)
    · cases h
      exact hraw
  · cases h
    exact isInert_wholeAsInteger hraw

/-- Whether what a spreadsheet library has under a name answers with inert values, in cells or
not. -/
def Sheet.IsInert (sheet : Sheet) (name : String) : Prop :=
  ∀ answer, sheet name = some answer → ∀ args u, answer args = .ok u → u.IsInert ∧ u.HasInertItem

theorem Sheet.isInert_apply {sheet : Sheet} {name : String} (hname : sheet.IsInert name)
    {args : List Value} {u : Value} (h : sheet.apply name args = .ok u) : u.IsInert := by
  rw [apply] at h
  split at h
  · cases h
  · next answer hanswer =>
    obtain ⟨raw, hr, hplain⟩ := Except.bind_eq_ok_iff.mp h
    obtain ⟨hraw, hitem⟩ := hname answer hanswer args raw hr
    exact Value.isInert_plainResult hraw hitem hplain

/-- What a function without effects gives is inert, if the spreadsheet library answers so. -/
theorem Function.isInert_applyPure {sheet : Sheet} {f : Function}
    (hf : ∀ name, f.body = .sheet name → sheet.IsInert name) {args : List Value} {u : Value}
    (h : f.applyPure sheet args = .ok u) : u.IsInert := by
  rw [applyPure] at h
  split at h
  · split at h
    · exact Builtin.isInert_apply h
    · next name hbody => exact Sheet.isInert_apply (hf name hbody) h
    · cases h
  · cases h

/-! ### Values of trees -/

section

variable {σ : Type} {Good : Function → Prop}

/-- Whether the values that a computation gives call good functions only. -/
def Yields (Good : Function → Prop) (x : Stateful σ Value) : Prop :=
  ∀ k v k', x.run k = (.ok v, k') → ∀ f ∈ v.functions, Good f

theorem yields_pure {v : Value} (h : ∀ f ∈ v.functions, Good f) :
    Yields Good (pure v : Stateful σ Value) := by
  intro k w k' hw
  cases hw
  exact h

theorem yields_throw (e : Error) : Yields Good (throw e : Stateful σ Value) := by
  intro k w k' hw
  cases hw

theorem yields_ofExcept {result : Except Error Value} (h : ∀ v, result = .ok v → v.IsInert) :
    Yields Good (MonadExcept.ofExcept result : Stateful σ Value) := by
  intro k v k' hv
  rw [Stateful.run_ofExcept] at hv
  have := Value.functions_of_isInert (h v (Prod.ext_iff.mp hv).1)
  simp [this]

theorem yields_bind {α : Type} {x : Stateful σ α} {g : α → Stateful σ Value}
    (hg : ∀ a, Yields Good (g a)) : Yields Good (x >>= g) := by
  intro k v k' hv
  obtain ⟨a, k'', -, ha⟩ := Stateful.run_bind_eq_ok_iff.mp hv
  exact hg a k'' v k' ha

variable {memory : Memory} {call : Function → List Value → Stateful σ Value}
  {formula : Expr → Stateful σ Value}

/-- One walk over a tree gives no functions but those of the tree, its memory and its calls. -/
theorem Expr.yields_evalBy
    (hbound : ∀ z v, Table.get? memory z = some v → ∀ f ∈ v.functions, Good f)
    (hformula : ∀ e : Expr, (∀ f ∈ e.functions, Good f) → Yields Good (formula e))
    (hcall : ∀ f args, Good f → Yields Good (call f args)) : ∀ e : Expr,
    (∀ f ∈ e.functions, Good f) →
      Yields Good (e.evalBy (memory.surroundingsWith call) formula)
  | .literal v, he => by
    rw [evalBy]
    exact yields_pure he
  | .given result needs, he => by
    rw [evalBy]
    exact yields_pure he
  | .asking f needs, he => by
    rw [evalBy]
    exact hcall f [] (he f List.mem_cons_self)
  | .identifier name, _ => by
    rw [Memory.evalBy_identifier]
    rcases hv : Table.get? memory name with - | v
    · exact yields_throw _
    · show Yields Good (v.followed formula)
      rw [Value.followed]
      rcases hv' : v.expr? with - | e
      · exact yields_pure (hbound name v hv)
      · refine hformula e ?_
        rw [← Value.functions_of_expr? hv']
        exact hbound name v hv
  | .keyed key, _ => by
    rw [Memory.evalBy_keyed]
    exact yields_throw _
  -- what an operator makes is inert, whatever its operands call
  | .negation e, _ => by
    rw [evalBy]
    exact yields_bind fun v => yields_ofExcept fun w hw => Value.isInert_neg hw
  | .binary op l r, _ => by
    rw [evalBy]
    exact yields_bind fun v => yields_bind fun w =>
      yields_ofExcept fun u hu => Operator.isInert_apply hu
  | .call f args, he => by
    rw [evalBy]
    exact yields_bind fun args => hcall f args (he f List.mem_cons_self)
  | .choice c t e, he => by
    rw [evalBy]
    have he' : ∀ f ∈ t.functions ++ e.functions, Good f :=
      fun f hf => he f (List.mem_append_right _ hf)
    refine yields_bind fun v => ?_
    split
    · exact yields_evalBy hbound hformula hcall t fun f hf => he' f (List.mem_append_left _ hf)
    · exact yields_evalBy hbound hformula hcall e fun f hf => he' f (List.mem_append_right _ hf)

/-- A formula that a tree is worth calls the functions that the tree and its memory call. -/
theorem Expr.yields_evalWithin
    (hbound : ∀ z v, Table.get? memory z = some v → ∀ f ∈ v.functions, Good f)
    (hcall : ∀ f args, Good f → Yields Good (call f args)) (depth : Nat) {e : Expr}
    (he : ∀ f ∈ e.functions, Good f) :
    Yields Good (e.evalWithin (memory.surroundingsWith call) depth) := by
  induction depth generalizing e with
  | zero =>
    rw [evalWithin]
    exact yields_evalBy hbound (fun _ _ => yields_throw _) hcall e he
  | succ depth ih =>
    rw [evalWithin]
    exact yields_evalBy hbound (fun _ he' => ih he') hcall e he

end

end Formulary
