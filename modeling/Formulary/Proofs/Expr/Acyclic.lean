import Formulary.Proofs.Expr.Evaluation
import Mathlib.Data.Finset.Card

/-!
# Acyclic memories

A memory is acyclic if no bound formula leads back to its own name. With every formula that is
opened one more name is out of reach then, so there are never more formulas open than there are
names, and it does not matter how many may be: from the number of bound names on that a tree
reaches, one more changes neither its value (`Expr.evalWithin_succ_of_isAcyclic`) nor its free names
(`Expr.freeNamesBy_succ_of_isAcyclic`). Where a formula does lead back to its own name, the search
for free names fails with every tree that comes to it (`Expr.exists_freeNamesIn_iff`).
-/

namespace Formulary

namespace Memory

/-- Whether no formula that is bound to a name leads back to this name. -/
def IsAcyclic (memory : Memory) : Prop :=
  ∀ name v formula, Table.get? memory name = some v → v.expr? = some formula →
    ¬ memory.Reaches formula name

open Classical in
/-- The bound names that a tree reaches. -/
noncomputable def reached (memory : Memory) (e : Expr) : Finset String :=
  (Table.keys memory).toFinset.filter (memory.Reaches e)

variable {memory : Memory} {e formula : Expr} {name : String} {v : Value}

/-- A memory is acyclic if its formulas read lower names than they are bound to. -/
theorem isAcyclic_of_rank (rank : String → Nat)
    (h : ∀ name v formula, Table.get? memory name = some v → v.expr? = some formula →
      ∀ z ∈ formula.identifiers, rank z < rank name) : memory.IsAcyclic := by
  -- what a tree reaches is at most as high as a name in it
  have hreaches {e : Expr} {z : String} (hz : memory.Reaches e z) :
      ∃ name ∈ e.identifiers, rank z ≤ rank name := by
    induction hz with
    | here hname => exact ⟨_, hname, Nat.le_refl _⟩
    | behind hname hv hformula _ ih =>
      obtain ⟨lower, hlower, hle⟩ := ih
      exact ⟨_, hname, hle.trans (h _ _ _ hv hformula lower hlower).le⟩
  intro name v formula hv hformula hself
  obtain ⟨lower, hlower, hle⟩ := hreaches hself
  exact absurd (h name v formula hv hformula lower hlower) (Nat.not_lt.mpr hle)

theorem isAcyclic_of_forall_mem (rank : String → Nat)
    (h : ∀ entry ∈ memory, ∀ formula, entry.2.expr? = some formula →
      ∀ z ∈ formula.identifiers, rank z < rank entry.1) : memory.IsAcyclic :=
  isAcyclic_of_rank rank fun name v formula hv => h (name, v) (Table.mem_of_get? hv) formula

theorem mem_reached_iff : name ∈ memory.reached e ↔
    name ∈ Table.keys memory ∧ memory.Reaches e name := by
  simp [reached]

theorem card_reached_le (memory : Memory) (e : Expr) : (memory.reached e).card ≤ memory.length :=
  calc (memory.reached e).card
      ≤ (Table.keys memory).toFinset.card :=
        Finset.card_le_card fun _ hz => List.mem_toFinset.mpr (mem_reached_iff.mp hz).1
    _ ≤ (Table.keys memory).length := List.toFinset_card_le _
    _ = memory.length := by rw [Table.keys, List.length_map]

/-- A formula that does not reach the name that it is behind reaches less than a tree with this
name. -/
theorem card_reached_lt (hname : name ∈ e.identifiers) (hv : Table.get? memory name = some v)
    (hformula : v.expr? = some formula) (hself : ¬ memory.Reaches formula name) :
    (memory.reached formula).card < (memory.reached e).card := by
  refine Finset.card_lt_card (Finset.ssubset_iff_of_subset ?_ |>.mpr ⟨name, ?_, ?_⟩)
  · intro z hz
    rw [mem_reached_iff] at hz ⊢
    exact hz.imp_right (.behind hname hv hformula)
  · exact mem_reached_iff.mpr ⟨Table.mem_keys_of_get? hv, .here hname⟩
  · rw [mem_reached_iff]
    exact fun hz => hself hz.2

theorem IsAcyclic.card_reached_lt (h : memory.IsAcyclic) (hname : name ∈ e.identifiers)
    (hv : Table.get? memory name = some v) (hformula : v.expr? = some formula) :
    (memory.reached formula).card < (memory.reached e).card :=
  memory.card_reached_lt hname hv hformula (h name v formula hv hformula)

theorem IsAcyclic.card_reached_lt_length (h : memory.IsAcyclic)
    (hv : Table.get? memory name = some v) (hformula : v.expr? = some formula) :
    (memory.reached formula).card < memory.length :=
  calc (memory.reached formula).card
      < (memory.reached (.identifier name)).card :=
        h.card_reached_lt (List.mem_singleton_self name) hv hformula
    _ ≤ memory.length := card_reached_le memory _

end Memory

namespace Expr

variable {memory : Memory}

/-! ### Values -/

section

variable {m : Type → Type} [Monad m] [LawfulMonad m] [MonadExceptOf Error m] {s : Surroundings m}
variable (hlookup : ∀ name, s.lookup name = pure (Table.get? memory name))
variable (hkey : ∀ key (formula formula' : Expr → m Value),
  (Expr.keyed key).evalBy s formula = (Expr.keyed key).evalBy s formula')
include hlookup hkey

/-- A walk over a tree depends on the formulas behind its names only. -/
theorem evalBy_congr_formula {formula formula' : Expr → m Value} {e : Expr}
    (h : ∀ name ∈ e.identifiers, ∀ v g, Table.get? memory name = some v → v.expr? = some g →
      formula g = formula' g) : e.evalBy s formula = e.evalBy s formula' := by
  refine evalBy_rel Correspondence.eq e (fun key _ => hkey key formula formula') ?_
    fun f _ args => rfl
  intro name hname
  show (Expr.identifier name).evalBy s formula = (Expr.identifier name).evalBy s formula'
  rw [evalBy, evalBy, hlookup, pure_bind, pure_bind]
  rcases hv : Table.get? memory name with - | v
  · rfl
  · exact Correspondence.eq.followed fun g hg => h name hname v g hv hg

/-- **In an acyclic memory the bound on open formulas does not matter** from the number of bound
names on that a tree reaches. -/
theorem evalWithin_succ_of_isAcyclic (hacyclic : memory.IsAcyclic) {depth : Nat} {e : Expr}
    (h : (memory.reached e).card ≤ depth) : e.evalWithin s (depth + 1) = e.evalWithin s depth := by
  induction depth generalizing e with
  | zero =>
    -- no name of the tree has a formula behind it
    refine evalBy_congr_formula hlookup hkey fun name hname v g hv hg => ?_
    have := hacyclic.card_reached_lt hname hv hg
    omega
  | succ depth ih =>
    refine evalBy_congr_formula hlookup hkey fun name hname v g hv hg => ih ?_
    have := hacyclic.card_reached_lt hname hv hg
    omega

end

/-! ### Free names -/

/-- How many formulas may be opened matters only to names with a formula behind them. -/
theorem namesBehind_congr_depth {depth depth' : Nat} {name : String}
    (h : ∀ v g, Table.get? memory name = some v → v.expr? = some g →
      memory.namesBehind depth name = memory.namesBehind depth' name) :
    memory.namesBehind depth name = memory.namesBehind depth' name := by
  rcases hv : Table.get? memory name with - | v
  · rw [Memory.namesBehind_unbound hv, Memory.namesBehind_unbound hv]
  · rcases hg : v.expr? with - | g
    · rw [Memory.namesBehind_plain hv hg, Memory.namesBehind_plain hv hg]
    · exact h v g hv hg

/-- **In an acyclic memory the search for free names ends** with the bound names that a tree
reaches. -/
theorem freeNamesBy_succ_of_isAcyclic (hacyclic : memory.IsAcyclic) {depth : Nat} {e : Expr}
    (h : (memory.reached e).card ≤ depth) :
    e.freeNamesBy (memory.namesBehind (depth + 1)) = e.freeNamesBy (memory.namesBehind depth) := by
  induction depth generalizing e with
  | zero =>
    refine freeNamesBy_congr e fun name hname => namesBehind_congr_depth fun v g hv hg => ?_
    have := hacyclic.card_reached_lt hname hv hg
    omega
  | succ depth ih =>
    refine freeNamesBy_congr e fun name hname => namesBehind_congr_depth fun v g hv hg => ?_
    have := hacyclic.card_reached_lt hname hv hg
    rw [Memory.namesBehind_succ hv hg, Memory.namesBehind_succ hv hg]
    exact ih (by omega)

/-- With as many formulas open as a tree reaches bound names, the search finds what is behind each
of its names, if it does not come back to a formula. -/
theorem exists_freeNamesBy_of_forall {depth : Nat} {e : Expr}
    (hends : ∀ name formula, memory.Reaches e name → memory.formula? name = some formula →
      ¬ memory.Reaches formula name)
    (h : (memory.reached e).card ≤ depth) :
    ∃ found, e.freeNamesBy (memory.namesBehind depth) = .ok found := by
  have hbehind : ∀ name ∈ e.identifiers, ∃ names, memory.namesBehind depth name = .ok names := by
    intro name hname
    rcases hv : Table.get? memory name with - | v
    · exact ⟨_, Memory.namesBehind_unbound hv depth⟩
    · rcases hg : v.expr? with - | g
      · exact ⟨_, Memory.namesBehind_plain hv hg depth⟩
      · have hself := hends name g (.here hname) (Memory.formula?_eq_some_iff.mpr ⟨v, hv, hg⟩)
        have hlt := memory.card_reached_lt hname hv hg hself
        obtain ⟨depth, rfl⟩ := Nat.exists_eq_succ_of_ne_zero (show depth ≠ 0 by omega)
        rw [Memory.namesBehind_succ hv hg]
        exact exists_freeNamesBy_of_forall
          (fun z formula hz => hends z formula (.behind hname hv hg hz)) (by omega)
  choose! names hnames using hbehind
  exact ⟨_, freeNamesBy_eq_pure hnames⟩

/-- A search that has come to an end has opened every formula that the tree comes to, each with less
depth left. -/
theorem exists_freeNamesBy_of_reaches {e formula : Expr} {name : String}
    (hr : memory.Reaches e name) (hformula : memory.formula? name = some formula) {depth : Nat}
    {found : List String} (h : e.freeNamesBy (memory.namesBehind depth) = .ok found) :
    ∃ depth' < depth, ∃ found', formula.freeNamesBy (memory.namesBehind depth') = .ok found' := by
  have hopened {e formula : Expr} {name : String} {depth : Nat} {found : List String}
      (h : e.freeNamesBy (memory.namesBehind depth) = .ok found) (hname : name ∈ e.identifiers)
      (hformula : memory.formula? name = some formula) :
      ∃ depth' < depth, ∃ found', formula.freeNamesBy (memory.namesBehind depth') = .ok found' := by
    obtain ⟨v, hv, hformula⟩ := Memory.formula?_eq_some_iff.mp hformula
    obtain ⟨names, hnames⟩ := exists_behind_of_freeNamesBy e h name hname
    cases depth with
    | zero =>
      rw [Memory.namesBehind_zero hv hformula] at hnames
      cases hnames
    | succ depth =>
      rw [Memory.namesBehind_succ hv hformula] at hnames
      exact ⟨depth, Nat.lt_succ_self depth, names, hnames⟩
  induction hr generalizing depth found with
  | here hname => exact hopened h hname hformula
  | behind hname hv hg _ ih =>
    obtain ⟨depth', hlt, found', h'⟩ :=
      hopened h hname (Memory.formula?_eq_some_iff.mpr ⟨_, hv, hg⟩)
    obtain ⟨depth'', hlt', hfound⟩ := ih hformula h'
    exact ⟨depth'', hlt'.trans hlt, hfound⟩

/-- **The search for free names succeeds just if no formula that a tree comes to leads back to its
own name.** -/
theorem exists_freeNamesIn_iff (e : Expr) : (∃ found, e.freeNamesIn memory = .ok found) ↔
    ∀ name formula, memory.Reaches e name → memory.formula? name = some formula →
      ¬ memory.Reaches formula name := by
  constructor
  · rintro ⟨found, h⟩ name formula hr hformula hself
    obtain ⟨depth, -, found', h'⟩ := exists_freeNamesBy_of_reaches hr hformula h
    -- the formula is opened again inside of itself, each time with less depth left
    induction depth using Nat.strong_induction_on generalizing found' with
    | _ depth ih =>
      obtain ⟨depth', hlt, found'', h''⟩ := exists_freeNamesBy_of_reaches hself hformula h'
      exact ih depth' hlt found'' h''
  · exact fun hends => exists_freeNamesBy_of_forall hends (Memory.card_reached_le memory e)

theorem exists_freeNamesIn_of_isAcyclic (hacyclic : memory.IsAcyclic) (e : Expr) :
    ∃ found, e.freeNamesIn memory = .ok found :=
  (exists_freeNamesIn_iff e).mpr fun name formula _ hformula => by
    obtain ⟨v, hv, hformula⟩ := Memory.formula?_eq_some_iff.mp hformula
    exact hacyclic name v formula hv hformula

end Expr

end Formulary
