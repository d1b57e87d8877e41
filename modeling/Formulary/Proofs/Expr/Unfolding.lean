import Formulary.Proofs.Expr.Acyclic
import Formulary.Proofs.Expr.ByName
import Formulary.Proofs.Expr.FreeNames
import Mathlib

/-!
# Formulas unfolded

A name that is bound to a formula may be replaced by the formula, and then the names in the formula
as well. In one round all such names of a tree are replaced (`Expr.opened`). In an acyclic memory
the formulas behind the names of a tree reach fewer bound names with every round
(`Memory.OpensWithin`), so after as many rounds as there are names no formula is left to be opened
(`Memory.IsAcyclic.formula?_of_mem_unfolded`).

A round opens what the search for free names would open, and takes one formula from the depth that
is left for it (`Expr.freeNamesBy_opened`). So the free names of a tree are those of the unfolded
tree, and there the search finds identifiers only (`Expr.freeNamesIn_eq_eraseDups`).
-/

namespace Formulary

mutual

/-- A tree with every name in it that is bound to a formula replaced by the formula. -/
def Expr.opened (memory : Memory) : Expr → Expr
  | .literal v => .literal v
  | .identifier name => (memory.formula? name).getD (.identifier name)
  | .keyed key => .keyed key
  | .negation e => .negation (e.opened memory)
  | .binary op l r => .binary op (l.opened memory) (r.opened memory)
  | .call f args => .call f (Expr.allOpened memory args)
  | .choice c t e => .choice (c.opened memory) (t.opened memory) (e.opened memory)
  | .given result needs => .given result needs
  | .asking f needs => .asking f needs

/-- Several trees with every name in them that is bound to a formula replaced by the formula. -/
def Expr.allOpened (memory : Memory) : List Expr → List Expr
  | [] => []
  | e :: es => e.opened memory :: Expr.allOpened memory es

end

/-- A tree with the names that are bound to formulas replaced again and again, as many times as
there are names. -/
def Expr.unfolded (memory : Memory) (e : Expr) : Expr := (Expr.opened memory)^[memory.length] e

namespace Memory

variable {memory : Memory} {name : String} {formula : Expr}

/-- A name without a formula behind it is free if it is not bound. -/
theorem namesBehind_of_formula?_eq_none (h : memory.formula? name = none) (depth : Nat) :
    memory.namesBehind depth name = .ok ([name].filter fun z => !Table.has memory z) := by
  rcases hv : Table.get? memory name with - | v
  · simp [namesBehind_unbound hv, Table.has, hv]
  · rw [formula?, hv] at h
    simp [namesBehind_plain hv h, Table.has, hv]

theorem namesBehind_of_formula? (h : memory.formula? name = some formula) (depth : Nat) :
    memory.namesBehind (depth + 1) name = formula.freeNamesBy (memory.namesBehind depth) := by
  obtain ⟨v, hv, hformula⟩ := formula?_eq_some_iff.mp h
  exact namesBehind_succ hv hformula depth

end Memory

namespace Expr

variable {memory : Memory}

/-! ### One round -/

mutual

/-- The names of an opened tree are those of what takes the place of each name. -/
theorem identifiers_opened : ∀ e : Expr, (e.opened memory).identifiers =
    e.identifiers.flatMap fun name => ((Expr.identifier name).opened memory).identifiers
  | .literal _ | .keyed _ | .given .. | .asking .. => rfl
  | .identifier name => by simp [identifiers]
  | .negation e => identifiers_opened e
  | .binary _ l r => by
    rw [opened, identifiers, identifiers, List.flatMap_append, identifiers_opened l,
      identifiers_opened r]
  | .call _ args => allIdentifiers_opened args
  | .choice c t e => by
    rw [opened, identifiers, identifiers, List.flatMap_append, List.flatMap_append,
      identifiers_opened c, identifiers_opened t, identifiers_opened e]

theorem allIdentifiers_opened : ∀ es : List Expr, Expr.allIdentifiers (Expr.allOpened memory es) =
    (Expr.allIdentifiers es).flatMap fun name =>
      ((Expr.identifier name).opened memory).identifiers
  | [] => rfl
  | e :: es => by
    rw [allOpened, allIdentifiers, allIdentifiers, List.flatMap_append, identifiers_opened e,
      allIdentifiers_opened es]

end

/-- A name of an opened tree was there before, or is in a formula that was opened. -/
theorem mem_identifiers_opened {e : Expr} {z : String} (h : z ∈ (e.opened memory).identifiers) :
    memory.formula? z = none ∨
      ∃ name ∈ e.identifiers, ∃ formula, memory.formula? name = some formula ∧
        z ∈ formula.identifiers := by
  rw [identifiers_opened, List.mem_flatMap] at h
  obtain ⟨name, hname, hz⟩ := h
  rw [opened] at hz
  rcases hformula : memory.formula? name with - | formula
  · -- the name stayed, so it is the one without a formula
    rw [hformula, Option.getD_none, identifiers, List.mem_singleton] at hz
    exact .inl (hz ▸ hformula)
  · rw [hformula, Option.getD_some] at hz
    exact .inr ⟨name, hname, formula, hformula, hz⟩

mutual

/-- **A round takes one formula from the depth of the search** for free names, and changes nothing
else about it. -/
theorem freeNamesBy_opened (depth : Nat) : ∀ e : Expr,
    (e.opened memory).freeNamesBy (memory.namesBehind depth) =
      e.freeNamesBy (memory.namesBehind (depth + 1))
  | .literal _ | .keyed _ | .given .. | .asking .. => by rw [opened, freeNamesBy, freeNamesBy]
  | .identifier name => by
    rw [opened, freeNamesBy]
    rcases hformula : memory.formula? name with - | formula
    · rw [Option.getD_none, freeNamesBy, Memory.namesBehind_of_formula?_eq_none hformula,
        Memory.namesBehind_of_formula?_eq_none hformula]
    · rw [Option.getD_some, Memory.namesBehind_of_formula? hformula]
  | .negation e => by rw [opened, freeNamesBy, freeNamesBy, freeNamesBy_opened depth e]
  | .binary _ l r => by
    rw [opened, freeNamesBy, freeNamesBy, freeNamesBy_opened depth l, freeNamesBy_opened depth r]
  | .call _ args => by rw [opened, freeNamesBy, freeNamesBy, allFreeNamesBy_opened depth args]
  | .choice c t e => by
    rw [opened, freeNamesBy, freeNamesBy, freeNamesBy_opened depth c, freeNamesBy_opened depth t,
      freeNamesBy_opened depth e]

theorem allFreeNamesBy_opened (depth : Nat) : ∀ es : List Expr,
    Expr.allFreeNamesBy (memory.namesBehind depth) (Expr.allOpened memory es) =
      Expr.allFreeNamesBy (memory.namesBehind (depth + 1)) es
  | [] => by rw [allOpened, allFreeNamesBy, allFreeNamesBy]
  | e :: es => by
    rw [allOpened, allFreeNamesBy, allFreeNamesBy, freeNamesBy_opened depth e,
      allFreeNamesBy_opened depth es]

end

mutual

/-- Formulas without nodes from outside bring none into a tree. -/
theorem needs_opened (hbound : ∀ name formula, memory.formula? name = some formula →
    formula.needs = []) : ∀ e : Expr, e.needs = [] → (e.opened memory).needs = []
  | .literal _, h | .keyed _, h | .given .., h | .asking .., h => h
  | .identifier name, h => by
    rw [opened]
    rcases hformula : memory.formula? name with - | formula
    · exact h
    · exact hbound name formula hformula
  | .negation e, h => needs_opened hbound e h
  | .binary _ l r, h => by
    obtain ⟨hl, hr⟩ := List.append_eq_nil_iff.mp h
    exact List.append_eq_nil_iff.mpr ⟨needs_opened hbound l hl, needs_opened hbound r hr⟩
  | .call _ args, h => allNeeds_opened hbound args h
  | .choice c t e, h => by
    obtain ⟨hc, h⟩ := List.append_eq_nil_iff.mp h
    obtain ⟨ht, he⟩ := List.append_eq_nil_iff.mp h
    exact List.append_eq_nil_iff.mpr ⟨needs_opened hbound c hc,
      List.append_eq_nil_iff.mpr ⟨needs_opened hbound t ht, needs_opened hbound e he⟩⟩

theorem allNeeds_opened (hbound : ∀ name formula, memory.formula? name = some formula →
    formula.needs = []) : ∀ es : List Expr, Expr.allNeeds es = [] →
    Expr.allNeeds (Expr.allOpened memory es) = []
  | [], _ => rfl
  | e :: es, h => by
    obtain ⟨he, hes⟩ := List.append_eq_nil_iff.mp h
    exact List.append_eq_nil_iff.mpr ⟨needs_opened hbound e he, allNeeds_opened hbound es hes⟩

end

/-! ### All rounds -/

theorem freeNamesBy_iterate_opened (rounds depth : Nat) (e : Expr) :
    ((opened memory)^[rounds] e).freeNamesBy (memory.namesBehind depth) =
      e.freeNamesBy (memory.namesBehind (depth + rounds)) := by
  induction rounds generalizing e with
  | zero => rfl
  | succ rounds ih =>
    rw [Function.iterate_succ_apply, ih, freeNamesBy_opened]
    rfl

theorem needs_unfolded (hbound : ∀ name formula, memory.formula? name = some formula →
    formula.needs = []) {e : Expr} (h : e.needs = []) : (e.unfolded memory).needs = [] := by
  have hrounds (rounds : Nat) : ((opened memory)^[rounds] e).needs = [] := by
    induction rounds with
    | zero => exact h
    | succ rounds ih =>
      rw [Function.iterate_succ_apply']
      exact needs_opened hbound _ ih
  exact hrounds memory.length

end Expr

namespace Memory

variable {memory : Memory} {e : Expr}

/-- Whether the formulas behind the names of a tree all reach fewer bound names than given. -/
def OpensWithin (memory : Memory) (depth : Nat) (e : Expr) : Prop :=
  ∀ name ∈ e.identifiers, ∀ formula, memory.formula? name = some formula →
    (memory.reached formula).card < depth

theorem IsAcyclic.opensWithin_length (h : memory.IsAcyclic) (e : Expr) :
    memory.OpensWithin memory.length e := by
  intro name _ formula hformula
  obtain ⟨v, hv, hformula⟩ := formula?_eq_some_iff.mp hformula
  exact h.card_reached_lt_length hv hformula

/-- A formula that a round uncovers reaches less than the one in which it was. -/
theorem IsAcyclic.opensWithin_opened (h : memory.IsAcyclic) {depth : Nat}
    (he : memory.OpensWithin (depth + 1) e) : memory.OpensWithin depth (e.opened memory) := by
  intro z hz formula hformula
  rcases Expr.mem_identifiers_opened hz with hnone | ⟨name, hname, outer, houter, hinner⟩
  · rw [hnone] at hformula
    cases hformula
  · obtain ⟨v, hv, hformula⟩ := formula?_eq_some_iff.mp hformula
    exact Nat.lt_of_lt_of_le (h.card_reached_lt hinner hv hformula)
      (Nat.le_of_lt_succ (he name hname outer houter))

/-- **No formula is left** behind a name of an unfolded tree. -/
theorem IsAcyclic.formula?_of_mem_unfolded (h : memory.IsAcyclic) {name : String}
    (hname : name ∈ (e.unfolded memory).identifiers) : memory.formula? name = none := by
  -- every round uses up one of the bound names that formulas may still reach
  have hrounds (depth : Nat) (e : Expr) (he : memory.OpensWithin depth e) :
      memory.OpensWithin 0 ((Expr.opened memory)^[depth] e) := by
    induction depth generalizing e with
    | zero => exact he
    | succ depth ih =>
      rw [Function.iterate_succ_apply]
      exact ih _ (h.opensWithin_opened he)
  rcases hformula : memory.formula? name with - | formula
  · rfl
  · exact absurd (hrounds memory.length e (h.opensWithin_length e) name hname formula hformula)
      (Nat.not_lt_zero _)

end Memory

namespace Expr

variable {memory : Memory} {e : Expr}

/-- The free names of a tree are those of the unfolded tree without the bound ones. -/
theorem freeNamesIn_eq_filter (hacyclic : memory.IsAcyclic) (he : e.needs = [])
    (hbound : ∀ name formula, memory.formula? name = some formula → formula.needs = []) :
    e.freeNamesIn memory =
      .ok ((e.unfolded memory).freeNames.filter fun name => !Table.has memory name) := by
  calc e.freeNamesIn memory
      = (e.unfolded memory).freeNamesBy (memory.namesBehind 0) := by
        rw [unfolded, freeNamesBy_iterate_opened, Nat.zero_add, freeNamesIn]
    _ = .ok ((e.unfolded memory).namesBy
          fun name => [name].filter fun z => !Table.has memory z) :=
        freeNamesBy_eq_pure fun name hname =>
          Memory.namesBehind_of_formula?_eq_none (hacyclic.formula?_of_mem_unfolded hname) 0
    _ = .ok ((e.unfolded memory).freeNames.filter fun name => !Table.has memory name) := by
        rw [freeNames_eq_namesBy, filter_namesBy _ (needs_unfolded hbound he)]

/-- **The free names of a parsed tree are its unbound names in first-use order.** In an acyclic
memory whose formulas are parsed trees, unfolding a parsed tree leaves no name that is bound to a
formula, and the search for the free names finds the first uses of those names in the unfolded tree
that are not bound. None of them is listed twice. Without a memory they are the first uses of all
names in the tree. The free keys against the same bindings as a mapping are the same. -/
theorem freeNamesIn_eq_eraseDups (hacyclic : memory.IsAcyclic) (he : e.IsParsed)
    (hbound : ∀ name formula, memory.formula? name = some formula → formula.IsParsed) :
    (∀ name ∈ (e.unfolded memory).identifiers, memory.formula? name = none) ∧
    (∃ names, e.freeNamesIn memory = .ok names ∧
      names =
        ((e.unfolded memory).identifiers.filter fun name => !Table.has memory name).eraseDups ∧
      names.Nodup ∧ (∀ name ∈ names, Table.get? memory name = none) ∧
      e.freeKeysIn (Mapping.ofNames memory) = .ok (names.map .text)) ∧
    e.freeNames = e.identifiers.eraseDups ∧ e.freeKeys = .ok (e.freeNames.map .text) := by
  have hneeds (name : String) (formula : Expr) (h : memory.formula? name = some formula) :
      formula.needs = [] := (hbound name formula h).needs_eq_nil
  have hkeys : memory.IsKeyless := fun name formula h => (hbound name formula h).keys_eq_nil
  have hfree : e.freeNamesIn memory = .ok
      ((e.unfolded memory).identifiers.filter fun name => !Table.has memory name).eraseDups := by
    rw [freeNamesIn_eq_filter hacyclic he.needs_eq_nil hneeds,
      freeNames_eq_eraseDups _ (needs_unfolded hneeds he.needs_eq_nil), filter_eraseDups]
  refine ⟨fun name hname => hacyclic.formula?_of_mem_unfolded hname,
    ⟨_, hfree, rfl, nodup_eraseDups _, fun name hname => ?_, ?_⟩,
    freeNames_eq_eraseDups e he.needs_eq_nil, freeKeys_eq he.keys_eq_nil⟩
  · rw [List.mem_eraseDups, List.mem_filter] at hname
    simpa [Table.has] using hname.2
  · rw [freeKeysIn_ofNames hkeys he.keys_eq_nil, hfree]
    rfl

/-- A memory in which one formula reads another one, and both read a name without a value. -/
def taxed : Memory :=
  [("total", .node (.binary .add (.identifier "net") (.identifier "tax"))),
   ("tax", .node (.binary .div (.binary .mul (.identifier "net") (.identifier "rate"))
      (.identifier "scale"))),
   ("scale", .int 100)]

/-- The tree of `IF(limit > total, net, rate + fee) + total`. -/
def withinLimit : Expr :=
  .binary .add
    (.choice (.binary .gt (.identifier "limit") (.identifier "total")) (.identifier "net")
      (.binary .add (.identifier "rate") (.identifier "fee")))
    (.identifier "total")

/-- Its free names are found in the order in which the unfolded tree has them, `rate` behind `total`
before `fee`. -/
theorem freeNamesIn_withinLimit : taxed.IsAcyclic ∧ withinLimit.IsParsed ∧
    (∀ name formula, taxed.formula? name = some formula → formula.IsParsed) ∧
    withinLimit.freeNamesIn taxed = .ok ["limit", "net", "rate", "fee"] := by
  have hacyclic : taxed.IsAcyclic :=
    Memory.isAcyclic_of_forall_mem
      (fun name => if name = "total" then 2 else if name = "tax" then 1 else 0)
      (by simp [taxed, Value.expr?, identifiers])
  have he : withinLimit.IsParsed := isParsed_of_ofText
    (show ofText .plain ⟨fun _ => none, true⟩ "IF(limit > total, net, rate + fee) + total" =
      .ok withinLimit by cbv)
  have hbound (name : String) (formula : Expr) (h : taxed.formula? name = some formula) :
      formula.IsParsed := by
    refine Memory.forall_formula?_of_forall_mem ?_ name formula h
    simp only [taxed, List.forall_mem_cons, Value.expr?, Option.some.injEq, forall_eq', reduceCtorEq,
      false_implies, implies_true, List.not_mem_nil, and_true]
    constructor
    · exact isParsed_of_ofText
        (show ofText .plain ⟨fun _ => none, true⟩ "net + tax" = .ok _ by cbv)
    · exact isParsed_of_ofText
        (show ofText .plain ⟨fun _ => none, true⟩ "net * rate / scale" = .ok _ by cbv)
  obtain ⟨-, ⟨names, hnames, hfirst, -⟩, -⟩ := freeNamesIn_eq_eraseDups hacyclic he hbound
  exact ⟨hacyclic, he, hbound, hnames.trans (congrArg Except.ok (hfirst.trans (by rfl)))⟩

end Expr

end Formulary
