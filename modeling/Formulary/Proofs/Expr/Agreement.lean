import Formulary.Proofs.Expr.Acyclic
import Formulary.Proofs.Expr.ByName

/-!
# Agreeing memories

The value of a tree depends on the names that it reaches and on nothing else in a memory. At one
bound on open formulas this is locality (`Expr.evalWithin_congr_of_lookup`). But the bound is the
number of names, so two memories of different size do not open formulas to the same depth. If both
are acyclic this makes no difference, since a larger bound opens nothing more
(`Expr.evalWithin_eq_of_le`): the tree has the same value in both, or the same failure, and the same
free names (`Expr.valueIn_eq_of_agree`).
-/

namespace Formulary

/-! ### Larger bounds -/

namespace Expr

variable {memory other : Memory} {e : Expr}

section

variable {m : Type → Type} [Monad m] [LawfulMonad m] [MonadExceptOf Error m] {s s' : Surroundings m}

/-- From the number of bound names on that a tree reaches, all bounds on open formulas are the
same. -/
theorem evalWithin_eq_of_le (hlookup : ∀ name, s.lookup name = pure (Table.get? memory name))
    (hkey : ∀ key (formula formula' : Expr → m Value),
      (Expr.keyed key).evalBy s formula = (Expr.keyed key).evalBy s formula')
    (hacyclic : memory.IsAcyclic) {depth depth' : Nat} (h : (memory.reached e).card ≤ depth)
    (hle : depth ≤ depth') : e.evalWithin s depth' = e.evalWithin s depth := by
  induction depth', hle using Nat.le_induction with
  | base => rfl
  | succ depth' hle ih =>
    rw [evalWithin_succ_of_isAcyclic hlookup hkey hacyclic (h.trans hle), ih]

/-- Two acyclic memories that agree on the names that a tree reaches give it one value, each with as
many open formulas as it has names, or more. -/
theorem evalWithin_eq_of_agree (hlookup : ∀ name, s.lookup name = pure (Table.get? memory name))
    (hlookup' : ∀ name, s'.lookup name = pure (Table.get? other name))
    (hkey : ∀ key formula, (Expr.keyed key).evalBy s formula = throw .wrongType)
    (hkey' : ∀ key formula, (Expr.keyed key).evalBy s' formula = throw .wrongType)
    (hcall : s.call = s'.call) (hacyclic : memory.IsAcyclic) (hacyclic' : other.IsAcyclic)
    (h : ∀ z, memory.Reaches e z → Table.get? memory z = Table.get? other z)
    {depth depth' : Nat} (hdepth : memory.length ≤ depth) (hdepth' : other.length ≤ depth') :
    e.evalWithin s depth = e.evalWithin s' depth' := by
  calc e.evalWithin s depth
      = e.evalWithin s (max depth depth') :=
        (evalWithin_eq_of_le hlookup (fun key _ _ => by rw [hkey, hkey]) hacyclic
          ((Memory.card_reached_le memory e).trans hdepth) (le_max_left _ _)).symm
    _ = e.evalWithin s' (max depth depth') :=
        evalWithin_congr_of_lookup hlookup hlookup' (fun key _ _ => by rw [hkey, hkey']) hcall h _
    _ = e.evalWithin s' depth' :=
        evalWithin_eq_of_le hlookup' (fun key _ _ => by rw [hkey', hkey']) hacyclic'
          ((Memory.card_reached_le other e).trans hdepth') (le_max_right _ _)

end

/-! ### Free names -/

theorem freeNamesBy_eq_of_le (hacyclic : memory.IsAcyclic) {depth depth' : Nat}
    (h : (memory.reached e).card ≤ depth) (hle : depth ≤ depth') :
    e.freeNamesBy (memory.namesBehind depth') = e.freeNamesBy (memory.namesBehind depth) := by
  induction depth', hle using Nat.le_induction with
  | base => rfl
  | succ depth' hle ih => rw [freeNamesBy_succ_of_isAcyclic hacyclic (h.trans hle), ih]

/-- The search for free names looks up the names that a tree reaches and no others. -/
theorem freeNamesBy_namesBehind_congr {e : Expr}
    (h : ∀ z, memory.Reaches e z → Table.get? memory z = Table.get? other z) (depth : Nat) :
    e.freeNamesBy (memory.namesBehind depth) = e.freeNamesBy (other.namesBehind depth) := by
  refine freeNamesBy_congr e fun name hname => ?_
  have hsame := h name (.here hname)
  rcases hv : Table.get? memory name with - | v
  · rw [Memory.namesBehind_unbound hv, Memory.namesBehind_unbound (hsame ▸ hv)]
  · rcases hf : v.expr? with - | formula
    · rw [Memory.namesBehind_plain hv hf, Memory.namesBehind_plain (hsame ▸ hv) hf]
    · cases depth with
      | zero => rw [Memory.namesBehind_zero hv hf, Memory.namesBehind_zero (hsame ▸ hv) hf]
      | succ depth =>
        rw [Memory.namesBehind_succ hv hf, Memory.namesBehind_succ (hsame ▸ hv) hf]
        exact freeNamesBy_namesBehind_congr (fun z hz => h z (.behind hname hv hf hz)) depth

theorem freeNamesIn_eq_of_agree (hacyclic : memory.IsAcyclic) (hacyclic' : other.IsAcyclic)
    (h : ∀ z, memory.Reaches e z → Table.get? memory z = Table.get? other z) :
    e.freeNamesIn memory = e.freeNamesIn other := by
  calc e.freeNamesIn memory
      = e.freeNamesBy (memory.namesBehind (max memory.length other.length)) :=
        (freeNamesBy_eq_of_le hacyclic (Memory.card_reached_le memory e) (le_max_left _ _)).symm
    _ = e.freeNamesBy (other.namesBehind (max memory.length other.length)) :=
        freeNamesBy_namesBehind_congr h _
    _ = e.freeNamesIn other :=
        freeNamesBy_eq_of_le hacyclic' (Memory.card_reached_le other e) (le_max_right _ _)

/-! ### Values -/

/-- **A tree depends only on the names that it reaches.** Two acyclic memories may bind other names
as they like: if they agree on the names in the tree, on those in the formulas behind these names
and so on, then the tree has one value or one failure in both, whatever the functions in it do, and
the same free names. The same holds of mappings by these names, where no key but a name is read. -/
theorem valueIn_eq_of_agree (hacyclic : memory.IsAcyclic) (hacyclic' : other.IsAcyclic)
    (h : ∀ z, memory.Reaches e z → Table.get? memory z = Table.get? other z) :
    (∀ sheet, e.valueIn sheet memory = e.valueIn sheet other) ∧
    (∀ {σ : Type} (call : Function → List Value → Stateful σ Value) (depth depth' : Nat),
      memory.length ≤ depth → other.length ≤ depth' →
      e.evalWithin (memory.surroundingsWith call) depth =
        e.evalWithin (other.surroundingsWith call) depth') ∧
    e.freeNamesIn memory = e.freeNamesIn other ∧
    (e.keys = [] → memory.IsKeyless → other.IsKeyless →
      (∀ sheet, e.valueAt sheet (Mapping.ofNames memory) =
        e.valueAt sheet (Mapping.ofNames other)) ∧
      e.freeKeysIn (Mapping.ofNames memory) = e.freeKeysIn (Mapping.ofNames other)) := by
  have hvalue (sheet : Sheet) : e.valueIn sheet memory = e.valueIn sheet other :=
    evalWithin_eq_of_agree (fun _ => rfl) (fun _ => rfl)
      (Memory.evalBy_keyed_surroundings sheet memory)
      (Memory.evalBy_keyed_surroundings sheet other) rfl hacyclic hacyclic' h le_rfl le_rfl
  have hfree := freeNamesIn_eq_of_agree hacyclic hacyclic' h
  refine ⟨hvalue, fun call depth depth' hdepth hdepth' => ?_, hfree, fun he hkeyless hkeyless' => ?_⟩
  · exact evalWithin_eq_of_agree (fun _ => rfl) (fun _ => rfl)
      (fun key formula => memory.evalBy_keyed call formula key)
      (fun key formula => other.evalBy_keyed call formula key) rfl hacyclic hacyclic' h hdepth hdepth'
  · refine ⟨fun sheet => ?_, ?_⟩
    · rw [valueAt_ofNames hkeyless sheet he, valueAt_ofNames hkeyless' sheet he, hvalue]
    · rw [freeKeysIn_ofNames hkeyless he, freeKeysIn_ofNames hkeyless' he, hfree]

/-- A memory with a formula and with what the formula reads. -/
def smallMemory : Memory :=
  [("a", .node (.binary .add (.identifier "b") (.literal (.int 1)))), ("b", .int 3)]

/-- The same names in other places, and a formula and a value under other names. -/
def largeMemory : Memory :=
  [("c", .node (.identifier "b")), ("b", .int 3), ("d", .text ""),
   ("a", .node (.binary .add (.identifier "b") (.literal (.int 1))))]

/-- The tree of `a * a`. -/
def square : Expr := .binary .mul (.identifier "a") (.identifier "a")

/-- It reaches `a` and `b`, and so it is worth in the large memory what it is worth in the small
one. -/
theorem valueIn_square : smallMemory.IsAcyclic ∧ largeMemory.IsAcyclic ∧
    (∀ z, smallMemory.Reaches square z → Table.get? smallMemory z = Table.get? largeMemory z) ∧
    square.valueIn .empty largeMemory = .ok (.int 16) := by
  have hacyclic : smallMemory.IsAcyclic :=
    Memory.isAcyclic_of_forall_mem (fun name => if name = "b" then 0 else 1)
      (by simp [smallMemory, Value.expr?, identifiers])
  have hacyclic' : largeMemory.IsAcyclic :=
    Memory.isAcyclic_of_forall_mem (fun name => if name = "b" then 0 else 1)
      (by simp [largeMemory, Value.expr?, identifiers])
  have hagree (z : String) (hz : smallMemory.Reaches square z) :
      Table.get? smallMemory z = Table.get? largeMemory z := by
    have hmem : z ∈ ["a", "b"] := by
      refine hz.mem_of_closed ?_ (by simp [square, identifiers])
      simp [smallMemory, Memory.formula?, Table.get?, Value.expr?, identifiers]
    rcases List.mem_pair.mp hmem with rfl | rfl
    · rfl
    · rfl
  exact ⟨hacyclic, hacyclic', hagree,
    ((valueIn_eq_of_agree hacyclic hacyclic' hagree).1 .empty).symm.trans (by rfl)⟩

end Expr

end Formulary
