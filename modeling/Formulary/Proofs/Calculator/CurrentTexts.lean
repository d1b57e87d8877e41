import Formulary.Proofs.Cache
import Formulary.Proofs.Calculator.Coupling
import Formulary.Proofs.Expr.Called
import Formulary.Proofs.Expr.Literals
import Formulary.Proofs.Table

/-!
# Texts that are not parsed anew

The functions that a text calls are found when it is parsed, and a text in the cache is not parsed
again. So the cache may know a text by another tree than the one that it spells now; a text for
which this is not so is current (`Calculator.IsCurrent`). What a current text calls is what the
names in it mean now (`Calculator.answered_of_isCurrent`).

Where all texts are current that an evaluation comes to, it comes to the same on a calculator that
has nothing in its cache (`Ensemble.alike_fresh`): ensembles stay alike as long as their calculators
find the same trees for these texts, however much they have learnt (`Ensemble.coupling_alike`).
-/

namespace Formulary

/-- What is found after writes into objects is what was found before them, after the writes. -/
theorem Table.get?_receiveAll {κ : Type} [BEq κ] (writes : List ObjectWrite) (t : Table κ Value)
    (key : κ) : get? (receiveAll writes t) key = (get? t key).map (Value.receiveAll writes) := by
  rw [receiveAll]
  split
  · next hnil =>
    rw [List.isEmpty_iff.mp hnil]
    rcases get? t key with - | v
    · rfl
    · rfl
  · exact get?_mapValues t (Value.receiveAll writes) key

namespace Calculator

variable {A : String → Prop} {setting : Setting} {c c' c'' : Calculator} {text : String}

/-! ### Current texts -/

/-- Whether the cache of a calculator knows a text, if at all, by the tree that the text spells. -/
def IsCurrent (setting : Setting) (c : Calculator) (text : String) : Prop :=
  ∀ v, c.cached? (.text text) = some v → ∃ e, v = .node e ∧ c.parse setting text = .ok e

/-- A text stays current where nothing else is known of it and it goes on spelling its tree. -/
theorem IsCurrent.of_cached? {setting' : Setting} (h : c.IsCurrent setting text)
    (hcached : ∀ v, c'.cached? (.text text) = some v → c.cached? (.text text) = some v)
    (hparse : ∀ e, c.parse setting text = .ok e → c'.parse setting' text = .ok e) :
    c'.IsCurrent setting' text := by
  intro v hv
  obtain ⟨e, hnode, he⟩ := h v (hcached v hv)
  exact ⟨e, hnode, hparse e he⟩

/-- A text that is current has the tree that it spells. -/
theorem treeOf_of_isCurrent (h : c.IsCurrent setting text) :
    c.treeOf setting (.text text) = c.parse setting text := by
  rcases hcached : c.cached? (.text text) with - | v
  · rw [treeOf, hcached]
    rfl
  · obtain ⟨e, rfl, hparse⟩ := h v hcached
    rw [treeOf, hcached, hparse]
    rfl

/-- **The calls of a current text answer the names that it calls**, as these are known now. -/
theorem answered_of_isCurrent (h : c.IsCurrent setting text) {e : Expr}
    (he : c.treeOf setting (.text text) = .ok e) :
    ∃ tokens, Token.scan c.lexerOptions text = .ok tokens ∧
      List.Forall₂ (Answers (c.function? setting)) (Token.calledNames tokens) e.calls := by
  rw [treeOf_of_isCurrent h] at he
  exact Expr.answered_of_ofText he

/-- Of an expression that is a text, only the text counts. -/
theorem treeOf_of_text? {expression : Value} (h : expression.text? = some text) :
    c.treeOf setting expression = c.treeOf setting (.text text) := by
  have hcached : c.cached? expression = c.cached? (.text text) := by
    rw [cached?, cached?, h]
    rfl
  rw [treeOf, treeOf, hcached, Value.expr?_of_text? h, h]
  rfl

/-- What is no text has the same tree for all calculators. -/
theorem treeOf_of_text?_eq_none {expression : Value} (h : expression.text? = none)
    (c c' : Calculator) : c'.treeOf setting expression = c.treeOf setting expression := by
  simp only [treeOf, cached?, h]
  rcases expression.expr? with - | e
  · rfl
  · rfl

/-! ### Texts that stay current -/

theorem cached?_text_eq_some_iff {v : Value} :
    c.cached? (.text text) = some v ↔ c.cache.get? text = some v ∧ v ≠ .none := by
  rw [cached?, Value.text?, Option.bind_some]
  rcases c.cache.get? text with - | u
  · simp
  · cases u <;> simp +contextual [eq_comm]

/-- What is put into the cache is what the text spells. -/
theorem IsCurrent.put (h : c.IsCurrent setting text) {s : String} {e : Expr}
    (hparse : c.parse setting s = .ok e) :
    IsCurrent setting { c with cache := c.cache.put setting.caching s (.node e) } text := by
  intro v hv
  rw [cached?_put] at hv
  split at hv
  · next hs =>
    obtain rfl := Option.some.inj hs.2
    exact ⟨e, (Option.some.inj hv).symm, hparse⟩
  · exact h v hv

/-- Forgetting other texts, or this one, leaves nothing that is not current. -/
theorem IsCurrent.forget (h : c.IsCurrent setting text) (forgets : String → Bool) :
    IsCurrent setting { c with cache := c.cache.forget forgets } text := by
  refine h.of_cached? (fun v hv => ?_) fun e he => he
  rw [cached?_text_eq_some_iff] at hv ⊢
  refine ⟨?_, hv.2⟩
  have hget := hv.1
  rw [Cache.get?_forget] at hget
  split at hget
  · cases hget
  · exact hget

/-- What is bound has no part in it. -/
theorem IsCurrent.rebound (h : c.IsCurrent setting text) {b : Bindings} (detached : Option Memory)
    (hcase : b.caseSensitive = c.bindings.caseSensitive) :
    IsCurrent setting { c with bindings := b, detached := detached } text := by
  have hparse : Calculator.parse setting { c with bindings := b, detached := detached } =
      c.parse setting := parse_congr hcase rfl rfl rfl
  exact h.of_cached? (fun _ hv => hv) fun e he => (congrFun hparse text).trans he

/-- What a calculator may have become under evaluations: it parses as before, and texts that were
current are current. -/
structure StaysCurrent (setting : Setting) (c c' : Calculator) : Prop where
  parse : c'.parse setting = c.parse setting
  current : ∀ text, c.IsCurrent setting text → c'.IsCurrent setting text

namespace StaysCurrent

theorem refl (c : Calculator) : StaysCurrent setting c c := ⟨rfl, fun _ => id⟩

theorem trans (h : StaysCurrent setting c c') (h' : StaysCurrent setting c' c'') :
    StaysCurrent setting c c'' :=
  ⟨h'.parse.trans h.parse, fun text htext => h'.current text (h.current text htext)⟩

theorem rebound {b : Bindings} (detached : Option Memory)
    (hcase : b.caseSensitive = c.bindings.caseSensitive) :
    StaysCurrent setting c { c with bindings := b, detached := detached } :=
  ⟨parse_congr hcase rfl rfl rfl, fun _ htext => htext.rebound detached hcase⟩

theorem forget (forgets : String → Bool) :
    StaysCurrent setting c { c with cache := c.cache.forget forgets } :=
  ⟨rfl, fun _ htext => htext.forget forgets⟩

theorem resolve (expression : Value) :
    StaysCurrent setting c ((Calculator.resolve setting expression).run c).2 :=
  snd_run_resolve (Q := StaysCurrent setting c) (fun h hparse =>
    h.trans ⟨rfl, fun _ htext => htext.put hparse⟩) (.refl c) expression

end StaysCurrent

/-- What was forgotten is parsed when it is needed again. -/
theorem treeOf_forget (forgets : String → Bool) (text : String) :
    treeOf setting { c with cache := c.cache.forget forgets } (.text text) =
      if forgets text then c.parse setting text else c.treeOf setting (.text text) := by
  simp only [treeOf, cached?, Value.text?, Option.bind_some, Cache.get?_forget]
  rcases forgets text with - | -
  · rfl
  · rfl

/-- A tree that was parsed holds no object that could be written into. -/
theorem IsCurrent.receiveAll (h : c.IsCurrent setting text) (writes : List ObjectWrite) :
    (c.receiveAll writes).IsCurrent setting text := by
  intro v hv
  rw [cached?_text_eq_some_iff, Cache.get?, Calculator.receiveAll, Table.get?_receiveAll] at hv
  obtain ⟨hreceived, hne⟩ := hv
  obtain ⟨u, hu, rfl⟩ := Option.map_eq_some_iff.mp hreceived
  have hcached : c.cached? (.text text) = some u := by
    refine cached?_text_eq_some_iff.mpr ⟨hu, ?_⟩
    rintro rfl
    exact hne (Value.receiveAll_of_receive (fun w => by simp [Value.receive]) writes)
  obtain ⟨e, rfl, hparse⟩ := h u hcached
  refine ⟨e, Value.receiveAll_of_receive (fun w => ?_) writes, hparse⟩
  rw [Value.receive, Expr.receive_ofText hparse]

/-! ### Agreement on texts -/

/-- The calculator with nothing in its cache, and all else as it is. -/
def fresh (c : Calculator) : Calculator := { c with cache := .ofSeed [] }

/-- Whether two calculators bind and read the same, parse alike, and find the same trees for texts
of a set and for what is no text. -/
structure Agrees (A : String → Prop) (setting : Setting) (c c' : Calculator) : Prop where
  bindings : c'.bindings = c.bindings
  detached : c'.detached = c.detached
  parse : c'.parse setting = c.parse setting
  tree : ∀ {expression : Value}, (∀ text, expression.text? = some text → A text) →
    c'.treeOf setting expression = c.treeOf setting expression

namespace Agrees

theorem refl (c : Calculator) : Agrees A setting c c := ⟨rfl, rfl, rfl, fun _ => rfl⟩

theorem symm (h : Agrees A setting c c') : Agrees A setting c' c :=
  ⟨h.bindings.symm, h.detached.symm, h.parse.symm, fun hA => (h.tree hA).symm⟩

theorem trans (h : Agrees A setting c c') (h' : Agrees A setting c' c'') : Agrees A setting c c'' :=
  ⟨h'.bindings.trans h.bindings, h'.detached.trans h.detached, h'.parse.trans h.parse,
    fun hA => (h'.tree hA).trans (h.tree hA)⟩

/-- Learning does not change what is found. -/
theorem of_learnt (h : Learnt setting c c') : Agrees A setting c c' :=
  ⟨h.bindings, h.detached, h.parse, fun _ => congrFun h.tree _⟩

/-- Nor does a change of what is bound, if it is the same for both. -/
theorem rebound (h : Agrees A setting c c') {b : Bindings} (detached : Option Memory)
    (hcase : b.caseSensitive = c.bindings.caseSensitive) :
    Agrees A setting { c with bindings := b, detached := detached }
      { c' with bindings := b, detached := detached } where
  bindings := rfl
  detached := rfl
  parse := by
    have hcase' : b.caseSensitive = c'.bindings.caseSensitive := by rw [hcase, h.bindings]
    have hleft : Calculator.parse setting { c with bindings := b, detached := detached } =
        c.parse setting := parse_congr hcase rfl rfl rfl
    have hright : Calculator.parse setting { c' with bindings := b, detached := detached } =
        c'.parse setting := parse_congr hcase' rfl rfl rfl
    rw [hleft, hright, h.parse]
  tree hA := by
    have hcase' : b.caseSensitive = c'.bindings.caseSensitive := by rw [hcase, h.bindings]
    have hleft : treeOf setting { c with bindings := b, detached := detached } =
        c.treeOf setting := treeOf_congr rfl hcase rfl rfl rfl
    have hright : treeOf setting { c' with bindings := b, detached := detached } =
        c'.treeOf setting := treeOf_congr rfl hcase' rfl rfl rfl
    rw [hleft, hright, h.tree hA]

/-- Nor does forgetting the same texts. -/
theorem forget (h : Agrees A setting c c') (forgets : String → Bool) :
    Agrees A setting { c with cache := c.cache.forget forgets }
      { c' with cache := c'.cache.forget forgets } where
  bindings := h.bindings
  detached := h.detached
  parse := h.parse
  tree {expression} hA := by
    rcases htext : expression.text? with - | text
    · exact treeOf_of_text?_eq_none htext _ _
    · rw [treeOf_of_text? htext, treeOf_of_text? htext, treeOf_forget, treeOf_forget, h.parse]
      have htree : c'.treeOf setting (.text text) = c.treeOf setting (.text text) :=
        h.tree fun _ htext' => hA _ (htext.trans htext')
      rw [htree]

end Agrees

/-- **Where texts are current, the cache can be done without.** -/
theorem agrees_fresh (h : ∀ text, A text → c.IsCurrent setting text) :
    Agrees A setting c c.fresh where
  bindings := rfl
  detached := rfl
  parse := rfl
  tree {expression} hA := by
    rcases htext : expression.text? with - | text
    · exact treeOf_of_text?_eq_none htext c c.fresh
    · have hfresh : c.fresh.treeOf setting (.text text) = c.parse setting text := rfl
      rw [treeOf_of_text? htext, treeOf_of_text? htext, treeOf_of_isCurrent (h text (hA text htext)),
        hfresh]

end Calculator

/-! ### Ensembles -/

namespace Ensemble

variable {A : String → Prop} {setting : Setting} {e e' : Ensemble} {n : Nat}

/-- What the calculators of an ensemble bind and read. -/
def boundBy (e : Ensemble) : Table Nat (Bindings × Option Memory) :=
  e.calculators.map fun entry => (entry.1, entry.2.bindings, entry.2.detached)

/-- Whether the calculators of two ensembles agree on texts of a set, at the same point of a step
and with the same notes. -/
structure Alike (A : String → Prop) (setting : Setting) (e e' : Ensemble) : Prop where
  agrees : ∀ n, (e.calculator n).Agrees A setting (e'.calculator n)
  boundBy : e'.boundBy = e.boundBy
  step : e'.step = e.step
  calls : e'.calls = e.calls
  notes : e'.notes = e.notes

theorem boundBy_put (e : Ensemble) (n : Nat) (c : Calculator) :
    (e.put n c).boundBy = Table.insert e.boundBy n (c.bindings, c.detached) := by
  rw [boundBy, put, boundBy, Table.insert_mapValues _ fun c : Calculator => (c.bindings, c.detached)]

/-- Whether an object is held depends on what the calculators bind and read. -/
theorem holdsCallFrom_eq (e : Ensemble) (number : Nat) : e.holdsCallFrom number =
    e.boundBy.any fun entry => (entry.2.1.memory ++ entry.2.2.getD entry.2.1.memory).any
      fun bound => bound.2.holdsCallFrom e.step number := by
  rw [holdsCallFrom, boundBy, List.any_map]
  rfl

namespace Alike

theorem refl (e : Ensemble) : Alike A setting e e := ⟨fun _ => .refl _, rfl, rfl, rfl, rfl⟩

theorem put (h : Alike A setting e e') {c c' : Calculator} (hc : c.Agrees A setting c') (n : Nat) :
    Alike A setting (e.put n c) (e'.put n c') where
  agrees m := by
    rw [calculator_put, calculator_put]
    split
    · exact hc
    · exact h.agrees m
  boundBy := by rw [boundBy_put, boundBy_put, h.boundBy, hc.bindings, hc.detached]
  step := h.step
  calls := h.calls
  notes := h.notes

theorem holdsCallFrom (h : Alike A setting e e') (number : Nat) :
    e'.holdsCallFrom number = e.holdsCallFrom number := by
  rw [holdsCallFrom_eq, holdsCallFrom_eq, h.boundBy, h.step]

/-- Two expressions with one tree are found alike. -/
theorem run_resolve (h : Alike A setting e e') (n : Nat) {expression expression' : Value}
    (hA : ∀ text, expression'.text? = some text → A text)
    (htree : (e.calculator n).treeOf setting expression' =
      (e.calculator n).treeOf setting expression) :
    ((onOne n (Calculator.resolve setting expression')).run e').1 =
        ((onOne n (Calculator.resolve setting expression)).run e).1 ∧
      Alike A setting ((onOne n (Calculator.resolve setting expression)).run e).2
        ((onOne n (Calculator.resolve setting expression')).run e').2 := by
  obtain ⟨c, hrun, hlearnt⟩ := Calculator.run_resolve setting expression (e.calculator n)
  obtain ⟨c', hrun', hlearnt'⟩ := Calculator.run_resolve setting expression' (e'.calculator n)
  have hagrees : c.Agrees A setting c' := by
    have hafter := (h.agrees n).trans (.of_learnt hlearnt')
    exact (Calculator.Agrees.of_learnt hlearnt).symm.trans hafter
  simp only [onOne, ExceptT.run_mk, hrun, hrun']
  exact ⟨((h.agrees n).tree hA).trans htree, h.put hagrees n⟩

end Alike

/-- **Ensembles stay alike** over all steps of evaluations that come to texts of the set only. -/
theorem coupling_alike (A : String → Prop) (setting : Setting) :
    Coupling A setting setting (Alike A setting) where
  sheet := rfl
  bindings h n := (h.agrees n).bindings
  detached h n := (h.agrees n).detached
  holds h := h.holdsCallFrom
  step h := h.step
  calls h := h.calls
  notes h := h.notes
  beside h _ _ := ⟨h.agrees, h.boundBy, h.step, rfl, rfl⟩
  rebound h n _ detached hcase _ := h.put ((h.agrees n).rebound detached hcase) n
  forgetful h n forgets := h.put ((h.agrees n).forget forgets) n
  resolve n _ hA _ _ h := h.run_resolve n hA rfl

/-- **No evaluation makes a current text stale**, on any calculator: whatever its routines do, what
a text spells stays the same, and only what it spells comes into a cache. -/
theorem staysCurrent_evaluateOne (library : Library) (n : Nat) (expression data : Value)
    (e : Ensemble) (m : Nat) : (e.calculator m).StaysCurrent setting
      (((evaluateOne setting (call library setting n) n expression data).run e).2.calculator m) := by
  have hput : ∀ {e₁ : Ensemble} {k : Nat} {c : Calculator},
      (e.calculator m).StaysCurrent setting (e₁.calculator m) →
      (e₁.calculator k).StaysCurrent setting c →
        (e.calculator m).StaysCurrent setting ((e₁.put k c).calculator m) := by
    intro e₁ k c h hc
    rw [calculator_put]
    split
    · next hk => exact h.trans (hk ▸ hc)
    · exact h
  have hcoupling : Coupling (fun _ => True) setting setting fun e₁ e₂ =>
      e₂ = e₁ ∧ (e.calculator m).StaysCurrent setting (e₁.calculator m) :=
    coupling_of_invariant (fun h _ _ => h)
      (fun h _ _ detached hcase _ => hput h (.rebound detached hcase))
      (fun h _ forgets => hput h (.forget forgets))
      fun h k expression => hput h (.resolve expression)
  have hcall := hcoupling.call (library.evaluatesOnly_of_forall fun _ => trivial) n
  exact (hcoupling.evaluateOne hcall n (fun _ _ => trivial) data).of_invariant (.refl _)

/-- An ensemble is like the one in which a calculator has nothing in its cache, as to texts that are
current. -/
theorem alike_fresh (hhas : Table.has e.calculators n = true)
    (h : ∀ text, A text → (e.calculator n).IsCurrent setting text) :
    Alike A setting e (e.put n (e.calculator n).fresh) where
  agrees m := by
    rw [calculator_put]
    split
    · next hm =>
      subst hm
      exact Calculator.agrees_fresh h
    · exact .refl _
  boundBy := by
    obtain ⟨c, hc⟩ := Option.isSome_iff_exists.mp hhas
    have hcalculator : e.calculator n = c := by rw [calculator, hc, Option.getD_some]
    have hget : Table.get? e.boundBy n = some (c.bindings, c.detached) := by
      rw [boundBy, Table.get?_mapValues _ fun c : Calculator => (c.bindings, c.detached), hc]
      rfl
    rw [boundBy_put, hcalculator]
    exact Table.insert_of_get? hget
  step := rfl
  calls := rfl
  notes := rfl

end Ensemble

end Formulary
