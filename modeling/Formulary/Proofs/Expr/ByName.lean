import Formulary.Proofs.Expr.Evaluation
import Formulary.Proofs.FirstUse

/-!
# Mappings by names as memories

The bindings of an expression are a mapping, which may have keys of any kind, or the memory of a
calculator, which has names only. Where all keys are texts, and neither a tree nor a formula behind
a name reads anything but texts, this makes no difference: the value against the mapping is the
value in the memory (`Expr.valueAt_ofNames`), and the free keys are the free names
(`Expr.freeKeysIn_ofNames`).
-/

namespace Formulary

namespace Value

theorem allHashable_texts (names : List String) : allHashable (names.map .text) = true := by
  induction names with
  | nil => rfl
  | cons name rest ih => exact ih

end Value

namespace Mapping

/-- The different keys among texts are these texts in first-use order. -/
theorem distinctKeys_texts (names : List String) :
    distinctKeys (names.map .text) = .ok (names.eraseDups.map .text) := by
  have hpairs : Table.ofPairs ((names.map Value.text).map (·, ())) =
      (Table.ofPairs (names.map (·, ()))).map fun entry => (Value.text entry.1, entry.2) := by
    have h := Table.insertAll_mapKeys (f := Value.text) (by simp) [] (names.map (·, ()))
    rw [List.map_map] at h ⊢
    exact h
  have hkeys : Table.keys (names.map (·, ())) = names := by simp [Table.keys, Function.comp_def]
  rw [distinctKeys, if_pos (Value.allHashable_texts names), hpairs]
  have h := Table.keys_ofPairs (names.map (·, ()))
  rw [hkeys] at h
  rw [← h, Table.keys, Table.keys, List.map_map, List.map_map]
  rfl

theorem lookup_ofNames (memory : Memory) (name : String) :
    (ofNames memory).lookup (.text name) = .ok (Table.get? memory name) := by
  rw [← get?_ofNames]
  rfl

/-! ### The keys behind a key -/

section

variable {bindings : Mapping} {key v : Value} {formula : Expr}

-- the search is unfolded by hand: its match on depth and formula gives functions, and what the
-- compiler makes of that has no equations
theorem keysBehind_unbound (h : bindings.lookup key = .ok none) (depth : Nat) :
    bindings.keysBehind depth key = .ok [key] := by
  delta keysBehind
  cases depth with
  | zero | succ =>
    show bindings.lookup key >>= _ = _
    rw [h]
    rfl

theorem keysBehind_plain (h : bindings.lookup key = .ok (some v)) (hv : v.expr? = none)
    (depth : Nat) : bindings.keysBehind depth key = .ok [] := by
  delta keysBehind
  cases depth with
  | zero | succ =>
    show bindings.lookup key >>= _ = _
    rw [h]
    simp only [bind, Except.bind, hv]
    rfl

theorem keysBehind_zero (h : bindings.lookup key = .ok (some v)) (hv : v.expr? = some formula) :
    bindings.keysBehind 0 key = .error .tooDeep := by
  delta keysBehind
  show bindings.lookup key >>= _ = _
  rw [h]
  simp only [bind, Except.bind, hv]
  rfl

theorem keysBehind_succ (h : bindings.lookup key = .ok (some v)) (hv : v.expr? = some formula)
    (depth : Nat) : bindings.keysBehind (depth + 1) key =
      formula.freeKeysBy (bindings.keysBehind depth) := by
  delta keysBehind
  show bindings.lookup key >>= _ = _
  rw [h]
  simp only [bind, Except.bind, hv]

end

end Mapping

/-- Whether names are all that the formulas in a memory read. -/
def Memory.IsKeyless (memory : Memory) : Prop :=
  ∀ name formula, memory.formula? name = some formula → formula.keys = []

namespace Expr

/-! ### Free keys -/

section

variable {behind : String → Except Error (List String)}
  {behindKey : Value → Except Error (List Value)}

mutual

/-- Where names are all that is read, and the free keys of each name are its free names, the free
keys of a tree are its free names. -/
theorem freeKeysBy_texts : ∀ e : Expr, e.keys = [] →
    (∀ name ∈ e.identifiers, behindKey (.text name) = (behind name).map (·.map .text)) →
    e.freeKeysBy behindKey = (e.freeNamesBy behind).map (·.map .text)
  | .literal _, _, _ | .given .., _, _ | .asking .., _, _ => by
    rw [freeKeysBy, freeNamesBy]
    rfl
  | .keyed _, h, _ => by cases h
  | .identifier name, _, hname => by
    rw [freeKeysBy, freeNamesBy]
    exact hname name List.mem_cons_self
  | .negation e, h, hname => by
    rw [freeKeysBy, freeNamesBy, freeKeysBy_texts e h hname]
    rcases e.freeNamesBy behind with fault | names
    · rfl
    · exact Mapping.distinctKeys_texts _
  | .binary _ l r, h, hname => by
    obtain ⟨hl, hr⟩ := List.append_eq_nil_iff.mp h
    rw [freeKeysBy, freeNamesBy,
      freeKeysBy_texts l hl fun name hn => hname name (List.mem_append_left _ hn),
      freeKeysBy_texts r hr fun name hn => hname name (List.mem_append_right _ hn)]
    rcases l.freeNamesBy behind with fault | left
    · rfl
    rcases r.freeNamesBy behind with fault | right
    · rfl
    -- the keys of both sides are put together as the names are: the first of each stays
    show Mapping.distinctKeys (_ ++ _) = _
    rw [← List.map_append]
    exact Mapping.distinctKeys_texts _
  | .call _ args, h, hname => by
    rw [freeKeysBy, freeNamesBy, allFreeKeysBy_texts args h hname]
    rcases Expr.allFreeNamesBy behind args with fault | names
    · rfl
    · exact Mapping.distinctKeys_texts _
  | .choice c t e, h, hname => by
    obtain ⟨hc, h⟩ := List.append_eq_nil_iff.mp h
    obtain ⟨ht, he⟩ := List.append_eq_nil_iff.mp h
    have hname' := fun name hn => hname name (List.mem_append_right _ hn)
    rw [freeKeysBy, freeNamesBy,
      freeKeysBy_texts c hc fun name hn => hname name (List.mem_append_left _ hn),
      freeKeysBy_texts t ht fun name hn => hname' name (List.mem_append_left _ hn),
      freeKeysBy_texts e he fun name hn => hname' name (List.mem_append_right _ hn)]
    rcases c.freeNamesBy behind with fault | first
    · rfl
    rcases t.freeNamesBy behind with fault | second
    · rfl
    rcases e.freeNamesBy behind with fault | third
    · rfl
    show Mapping.distinctKeys (_ ++ _ ++ _) = _
    rw [List.append_assoc, ← List.map_append, ← List.map_append]
    exact Mapping.distinctKeys_texts _

theorem allFreeKeysBy_texts : ∀ es : List Expr, Expr.allKeys es = [] →
    (∀ name ∈ Expr.allIdentifiers es, behindKey (.text name) = (behind name).map (·.map .text)) →
    Expr.allFreeKeysBy behindKey es = (Expr.allFreeNamesBy behind es).map (·.map .text)
  | [], _, _ => by
    rw [allFreeKeysBy, allFreeNamesBy]
    rfl
  | e :: es, h, hname => by
    obtain ⟨he, hes⟩ := List.append_eq_nil_iff.mp h
    rw [allFreeKeysBy, allFreeNamesBy,
      freeKeysBy_texts e he fun name hn => hname name (List.mem_append_left _ hn),
      allFreeKeysBy_texts es hes fun name hn => hname name (List.mem_append_right _ hn)]
    rcases e.freeNamesBy behind with fault | first
    · rfl
    rcases Expr.allFreeNamesBy behind es with fault | rest
    · rfl
    exact congrArg Except.ok List.map_append.symm

end

end

theorem freeKeys_eq {e : Expr} (h : e.keys = []) : e.freeKeys = .ok (e.freeNames.map .text) :=
  calc e.freeKeys
      = (e.freeNamesBy fun name => Except.ok [name]).map (·.map .text) :=
        freeKeysBy_texts e h fun _ _ => rfl
    _ = .ok (e.freeNames.map .text) := congrArg _ (freeNamesBy_eq_pure fun _ _ => rfl)

variable {memory : Memory} (hkeyless : memory.IsKeyless)
include hkeyless

theorem keysBehind_ofNames (depth : Nat) (name : String) :
    (Mapping.ofNames memory).keysBehind depth (.text name) =
      (memory.namesBehind depth name).map (·.map .text) := by
  have hlookup := Mapping.lookup_ofNames memory name
  rcases hv : Table.get? memory name with - | v
  · rw [Mapping.keysBehind_unbound (hv ▸ hlookup), Memory.namesBehind_unbound hv]
    rfl
  · rcases hf : v.expr? with - | formula
    · rw [Mapping.keysBehind_plain (hv ▸ hlookup) hf, Memory.namesBehind_plain hv hf]
      rfl
    · cases depth with
      | zero =>
        rw [Mapping.keysBehind_zero (hv ▸ hlookup) hf, Memory.namesBehind_zero hv hf]
        rfl
      | succ depth =>
        rw [Mapping.keysBehind_succ (hv ▸ hlookup) hf, Memory.namesBehind_succ hv hf]
        have hformula := hkeyless name formula (Memory.formula?_eq_some_iff.mpr ⟨v, hv, hf⟩)
        exact freeKeysBy_texts formula hformula fun other _ => keysBehind_ofNames depth other

/-- **The free keys against a mapping by names are the free names.** -/
theorem freeKeysIn_ofNames {e : Expr} (h : e.keys = []) :
    e.freeKeysIn (Mapping.ofNames memory) = (e.freeNamesIn memory).map (·.map .text) := by
  have hlength : (Mapping.ofNames memory).length = memory.length := List.length_map _
  rw [freeKeysIn, hlength]
  exact freeKeysBy_texts e h fun name _ => keysBehind_ofNames hkeyless memory.length name

/-! ### Values -/

/-- A walk against a mapping by names is one in the memory of these names, if the formulas behind
names have the same values. -/
theorem evalBy_ofNames (sheet : Sheet) {formula formula' : Expr → Except Error Value} {e : Expr}
    (he : e.keys = []) (hformula : ∀ f : Expr, f.keys = [] → formula f = formula' f) :
    e.evalBy ((Mapping.ofNames memory).surroundings sheet) formula =
      e.evalBy (memory.surroundings sheet) formula' := by
  refine evalBy_rel Correspondence.eq e (fun key hkey => ?_) (fun name _ => ?_) fun f _ args => rfl
  · -- no other keys are read
    rw [he] at hkey
    cases hkey
  · show (Expr.identifier name).evalBy _ formula = (Expr.identifier name).evalBy _ formula'
    rw [evalBy, evalBy]
    simp only [Mapping.surroundings, Memory.surroundings, Mapping.get?_ofNames, pure_bind]
    rcases hv : Table.get? memory name with - | v
    · rfl
    · refine Correspondence.eq.followed fun f hf => hformula f (hkeyless name f ?_)
      exact Memory.formula?_eq_some_iff.mpr ⟨v, hv, hf⟩

theorem evalWithin_ofNames (sheet : Sheet) (depth : Nat) {e : Expr} (h : e.keys = []) :
    e.evalWithin ((Mapping.ofNames memory).surroundings sheet) depth =
      e.evalWithin (memory.surroundings sheet) depth := by
  induction depth generalizing e with
  | zero =>
    rw [evalWithin, evalWithin]
    exact evalBy_ofNames hkeyless sheet h fun _ _ => rfl
  | succ depth ih =>
    rw [evalWithin, evalWithin]
    exact evalBy_ofNames hkeyless sheet h fun f hf => ih hf

/-- **The value against a mapping by names is the value in the memory of these names.** -/
theorem valueAt_ofNames (sheet : Sheet) {e : Expr} (h : e.keys = []) :
    e.valueAt sheet (Mapping.ofNames memory) = e.valueIn sheet memory := by
  have hlength : (Mapping.ofNames memory).length = memory.length := List.length_map _
  rw [valueAt, hlength]
  exact evalWithin_ofNames hkeyless sheet memory.length h

end Expr

end Formulary
