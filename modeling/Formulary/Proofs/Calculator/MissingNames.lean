import Formulary.Proofs.Calculator.Sufficiency
import Formulary.Proofs.Expr.Acyclic
import Formulary.Proofs.Expr.FreeNames

/-!
# What an evaluation reports as missing

Before an evaluation walks a tree it reports all names of the tree itself that have no value. Names
that are missing behind formulas are not looked for in advance: the walk comes to the first of them
and fails with this one name alone. So an evaluation that fails for lack of names reports some of
the names that `dependencies` finds, and the whole list only if no formula that the tree reads lacks
a name, or if a single name is missing altogether (`unboundNames_of_run_evaluateStrict`).
-/

namespace Formulary

/-! ### The names of the tree itself -/

namespace Expr

variable {memory : Memory}

/-- The names of a tree without a value are free. -/
theorem unboundIn_subset_of_freeNamesIn {e : Expr} {found : List String}
    (h : e.freeNamesIn memory = .ok found) : e.unboundIn memory ⊆ found := by
  intro z hz
  obtain ⟨hfree, hnone⟩ := List.mem_filter.mp hz
  rcases mem_freeNames_iff.mp hfree with hread | hneed
  · refine Memory.mem_of_freeNamesIn_of_reaches h (.here hread) ?_
    simpa [Table.has] using hnone
  · exact (mem_of_freeNamesBy_iff h).mpr (.inr hneed)

/-- They are all that is free if no name that is bound stands for a missing one. -/
theorem freeNamesIn_eq_unboundIn {e : Expr} (hneeds : e.needs = [])
    (h : ∀ name ∈ e.identifiers, Table.has memory name = true →
      memory.namesBehind memory.length name = .ok []) :
    e.freeNamesIn memory = .ok (e.unboundIn memory) := by
  rw [freeNamesIn, unboundIn, freeNames_eq_namesBy, filter_namesBy e hneeds]
  refine freeNamesBy_eq_pure fun name hname => ?_
  rcases hv : Table.get? memory name with - | v
  · rw [Memory.namesBehind_unbound hv]
    simp [Table.has, hv, pure, Except.pure]
  · rw [h name hname (by simp [Table.has, hv])]
    simp [Table.has, hv, pure, Except.pure]

/-- If only one name is free, it is the only one of the tree or none of them. -/
theorem unboundIn_eq_singleton {e : Expr} {z : String} (hfree : e.freeNamesIn memory = .ok [z])
    (h : e.unboundIn memory ≠ []) : e.unboundIn memory = [z] := by
  have hsub : ∀ name ∈ e.unboundIn memory, name = z := fun name hname =>
    List.mem_singleton.mp (unboundIn_subset_of_freeNamesIn hfree hname)
  have hnodup : (e.unboundIn memory).Nodup := by
    refine List.Nodup.filter _ ?_
    rw [freeNames_eq_namesBy]
    cases e with
    | given _ needs | asking _ needs =>
      rw [freeNamesIn, freeNamesBy] at hfree
      obtain rfl := Except.ok.inj hfree
      simp
    | literal _ | keyed _ | identifier _ => simp
    | negation _ | binary _ _ _ | call _ _ | choice _ _ _ => exact nodup_eraseDups _
  rcases hown : e.unboundIn memory with - | ⟨name, rest⟩
  · exact absurd hown h
  rw [hown] at hsub hnodup
  obtain rfl := hsub name List.mem_cons_self
  have hrest : rest = [] := List.eq_nil_iff_forall_not_mem.mpr fun other hother =>
    (List.nodup_cons.mp hnodup).1 (hsub other (List.mem_cons_of_mem _ hother) ▸ hother)
  rw [hrest]

end Expr

/-! ### Reports -/

/-- The lists of names that an evaluation of a tree may report: those of the tree itself that have
no value, or if there are none, one name without a value that it leads to. -/
inductive Memory.Reports (memory : Memory) (e : Expr) : List String → Prop
  | own (h : e.unboundIn memory ≠ []) : Reports memory e (e.unboundIn memory)
  | behind {z : String} (h : e.unboundIn memory = []) (hr : memory.Reaches e z)
      (hz : Table.get? memory z = none) : Reports memory e [z]

namespace Memory.Reports

variable {memory : Memory} {e : Expr} {names : List String}

theorem ne_nil (h : memory.Reports e names) : names ≠ [] := by
  cases h with
  | own h => exact h
  | behind => simp

theorem eq_unboundIn (h : memory.Reports e names) (hown : e.unboundIn memory ≠ []) :
    names = e.unboundIn memory := by
  cases h with
  | own => rfl
  | behind hnone => exact absurd hnone hown

section

variable {found : List String} (hfound : e.freeNamesIn memory = .ok found)

include hfound

/-- What is reported is missing. -/
theorem subset (h : memory.Reports e names) : names ⊆ found := by
  cases h with
  | own => exact Expr.unboundIn_subset_of_freeNamesIn hfound
  | behind _ hr hz =>
    rintro _ (_ | ⟨_, ⟨⟩⟩)
    exact mem_of_freeNamesIn_of_reaches hfound hr hz

theorem eq_singleton (h : memory.Reports e names) (hnone : e.unboundIn memory = []) :
    ∃ z ∈ found, names = [z] := by
  cases h with
  | own hown => exact absurd hnone hown
  | behind _ hr hz => exact ⟨_, mem_of_freeNamesIn_of_reaches hfound hr hz, rfl⟩

theorem eq_of_length (h : memory.Reports e names) (hlength : found.length = 1) :
    names = found := by
  obtain ⟨z, rfl⟩ := List.length_eq_one_iff.mp hlength
  cases h with
  | own hown => rw [Expr.unboundIn_eq_singleton hfound hown]
  | behind _ hr hnone =>
    rw [List.mem_singleton.mp (mem_of_freeNamesIn_of_reaches hfound hr hnone)]

end

theorem eq_of_eq_unboundIn (h : memory.Reports e names)
    (hfree : e.freeNamesIn memory = .ok (e.unboundIn memory)) : names = e.unboundIn memory := by
  cases h with
  | own => rfl
  | behind hown hr hz =>
    have hmem := mem_of_freeNamesIn_of_reaches hfree hr hz
    rw [hown] at hmem
    cases hmem

end Memory.Reports

/-! ### Evaluations -/

/-- **An evaluation that fails for lack of names** reports the names of the tree, or the one that it
came to. -/
theorem Calculator.failsOnly_valueOf_reports {library : Library} {setting : Setting}
    {c : Calculator} {entries : Mapping} {expression : Value} {tree : Expr}
    (hc : c.CallsOnly setting (Function.IsOwn library setting.sheet))
    (hentries : ∀ entry ∈ entries, ∀ f ∈ entry.2.functions, f.IsOwn library setting.sheet)
    (hexpression : ∀ f ∈ expression.functions, f.IsOwn library setting.sheet)
    (htree : c.treeOf setting expression = .ok tree) (step : Nat) :
    FailsOnly (fun fault => fault.kind = .unbound →
        (c.opened entries).memory.Reports tree fault.unboundNames)
      (c.valueOf library setting step entries expression) := by
  rw [valueOf_of_ok htree]
  split
  · next hown =>
    have hvalues : ∀ fault : Error, fault.kind.isOfValues = true → fault.kind = .unbound →
        (c.opened entries).memory.Reports tree fault.unboundNames := by
      intro fault hkind hunbound
      rw [hunbound] at hkind
      cases hkind
    refine Expr.failsOnly_evalWithin hvalues nofun (fun f hf => hf.failsOnly_counted hvalues step)
      (fun z v hv => hc.functions_opened hentries hv) _ (fun z hr hz _ => ?_)
      (hc.functions_treeOf hexpression htree)
    exact .behind (List.isEmpty_iff.mp hown) hr hz
  · next hown =>
    exact .throw fun _ => .own (by simpa using hown)

namespace Ensemble

/-- **Of the missing names an evaluation reports** those of the tree itself, all of them in the
order in which they are read, or else a single one behind a formula. If `dependencies` returns, as
it does in every acyclic memory, this is all that it finds if no formula that the tree reads lacks a
name, or if just one name is missing. -/
theorem unboundNames_of_run_evaluateStrict {library : Library} {setting : Setting} {n : Nat}
    {e : Ensemble} {s : String} {data : Value} {entries : Mapping} {tree : Expr} {fault : Error}
    (hc : (e.calculator n).CallsOnly setting (Function.IsOwn library setting.sheet))
    (hdata : (Calculator.dataOf data).entries? = some entries)
    (hentries : ∀ entry ∈ entries, ∀ f ∈ entry.2.functions, f.IsOwn library setting.sheet)
    (htree : (e.calculator n).treeOf setting (.text s) = .ok tree)
    (hfault : ((evaluateStrict library setting n (.text s) data).run e).1 = .error fault)
    (hkind : fault.kind = .unbound) :
    ∃ memory, memory = ((e.calculator n).opened entries).memory ∧
      fault.unboundNames ≠ [] ∧
      (tree.unboundIn memory ≠ [] → fault.unboundNames = tree.unboundIn memory) ∧
      (memory.IsAcyclic → ∃ names,
        ((onOne n (Calculator.dependencies setting data (.text s))).run e).1 = .ok names) ∧
      ∀ names, ((onOne n (Calculator.dependencies setting data (.text s))).run e).1 = .ok names →
        fault.unboundNames ⊆ names ∧
        (tree.unboundIn memory = [] → ∃ z ∈ names, fault.unboundNames = [z]) ∧
        (tree.needs = [] → (∀ name ∈ tree.identifiers, Table.has memory name = true →
          memory.namesBehind memory.length name = .ok []) → fault.unboundNames = names) ∧
        (names.length = 1 → fault.unboundNames = names) := by
  have hnothing : ∀ f ∈ (Value.text s).functions, f.IsOwn library setting.sheet := by
    simp [Value.functions]
  have hsingles : ∀ w ∈ (Value.text s).singles, ∀ f ∈ w.functions,
    f.IsOwn library setting.sheet := by
    simpa [Value.singles] using hnothing
  obtain ⟨e', hstrict, -, -⟩ := follows_evaluateStrict hc hentries hsingles e (.refl _) rfl
  rw [evaluateStrict_of_entries? hdata, hstrict] at hfault
  have hreports : ((e.calculator n).opened entries).memory.Reports tree fault.unboundNames := by
    refine Calculator.failsOnly_valueOf_reports hc hentries hnothing htree e.step e.calls fault ?_
      hkind
    simpa only [forEach] using hfault
  -- what `dependencies` finds are the free names of the tree
  have hdependencies : ((onOne n (Calculator.dependencies setting data (.text s))).run e).1 =
      tree.freeNamesIn ((e.calculator n).opened entries).memory := by
    obtain ⟨c', hrun, -⟩ :=
      Calculator.run_dependenciesOfOne_of_entries? setting (.text s) hdata (e.calculator n)
    rw [onOne, ExceptT.run_mk, Calculator.dependencies, hrun, htree]
    · rfl
    · intro items hitems
      cases hitems
    · intro items hitems
      cases hitems
  simp only [hdependencies]
  refine ⟨_, rfl, hreports.ne_nil, hreports.eq_unboundIn,
    fun hacyclic => Expr.exists_freeNamesIn_of_isAcyclic hacyclic tree, fun names hnames =>
      ⟨hreports.subset hnames, hreports.eq_singleton hnames, fun hneeds hbehind => ?_,
        hreports.eq_of_length hnames⟩⟩
  have hown := Expr.freeNamesIn_eq_unboundIn hneeds hbehind
  rw [hreports.eq_of_eq_unboundIn hown]
  exact Except.ok.inj (hown.symm.trans hnames)

/-- Where `a` stands for `w + h` and neither has a value, evaluating `a` reports the `w` that it
comes to, though both are missing. -/
theorem unboundNames_bindingSum :
    ((evaluateStrict (fun _ => none) (.initial .empty) 0 (.text "a") (.map [])).run bindingSum).1 =
      .error (.unbound ["w"] none) ∧
    ((onOne 0 (Calculator.dependencies (.initial .empty) (.map []) (.text "a"))).run
      bindingSum).1 = .ok ["w", "h"] ∧
    ∃ z ∈ ["w", "h"], (Error.unbound ["w"] none).unboundNames = [z] := by
  have hfault : ((evaluateStrict (fun _ => none) (.initial .empty) 0 (.text "a") (.map [])).run
      bindingSum).1 = .error (.unbound ["w"] none) := by
    rw [bindingSum, Calculator.usual_eq, Setting.initial_eq]
    cbv
  have hnames : ((onOne 0 (Calculator.dependencies (.initial .empty) (.map []) (.text "a"))).run
      bindingSum).1 = .ok ["w", "h"] := by
    rw [bindingSum, Calculator.usual_eq, Setting.initial_eq]
    cbv
  have hc : (bindingSum.calculator 0).CallsOnly (.initial .empty)
      (Function.IsOwn (fun _ => none) .empty) := by
    rw [bindingSum, calculator_put_self]
    exact Calculator.callsOnly_usual _ (by simp [Value.functions, Expr.functions])
  have htree : (bindingSum.calculator 0).treeOf (.initial .empty) (.text "a") =
      .ok (.identifier "a") := by
    rw [bindingSum, Calculator.usual_eq, Setting.initial_eq]
    cbv
  obtain ⟨memory, rfl, -, -, -, hreported⟩ :=
    unboundNames_of_run_evaluateStrict hc (Calculator.entries?_dataOf_map _) (by simp) htree hfault
      rfl
  obtain ⟨-, hsingle, -⟩ := hreported _ hnames
  refine ⟨hfault, hnames, hsingle ?_⟩
  rfl

end Ensemble

end Formulary
