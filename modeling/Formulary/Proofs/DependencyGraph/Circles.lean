import Formulary.Proofs.DependencyGraph
import Mathlib.Logic.Relation

/-!
# Circles

A name is never released if it is on a circle of names that read each other, or reads, directly or
through others, a name that is. These are all: the names that are not released each read another one
of them, and among finitely many names this cannot go on without coming back
(`leadsToCircle_of_forall`). So a graph has an order just if it has no circle, and the failure lists
the names on circles and behind them (`order_ofNodes`).
-/

namespace Formulary

open Relation

/-! ### Relations that lead to circles -/

/-- Whether a relation leads from something to what it leads back to. -/
def LeadsToCircle {α : Type} (r : α → α → Prop) (a : α) : Prop :=
  ∃ c, ReflTransGen r a c ∧ TransGen r c c

section

variable {α : Type} {r : α → α → Prop} {a b : α}

theorem leadsToCircle_of_transGen (h : TransGen r a a) : LeadsToCircle r a := ⟨a, .refl, h⟩

theorem LeadsToCircle.head (hab : r a b) (h : LeadsToCircle r b) : LeadsToCircle r a := by
  obtain ⟨c, hbc, hc⟩ := h
  exact ⟨c, .head hab hbc, hc⟩

/-- The way to a circle and around it goes on. -/
theorem LeadsToCircle.exists_next (h : LeadsToCircle r a) : ∃ b, r a b ∧ LeadsToCircle r b := by
  obtain ⟨c, hac, hc⟩ := h
  rcases hac.cases_head with rfl | ⟨b, hab, hbc⟩
  · obtain ⟨b, hab, hba⟩ := TransGen.head'_iff.mp hc
    exact ⟨b, hab, a, hba, hc⟩
  · exact ⟨b, hab, c, hbc, hc⟩

open Classical in
/-- **Who never ends comes back**: among finitely many that each lead to another one of them, each
leads to a circle. -/
theorem leadsToCircle_of_forall {names : List α} (h : ∀ a ∈ names, ∃ b ∈ names, r a b)
    (ha : a ∈ names) : LeadsToCircle r a := by
  induction hn : names.length using Nat.strongRecOn generalizing names a with
  | _ n ih =>
    by_cases hcircle : TransGen r a a
    · exact leadsToCircle_of_transGen hcircle
    · -- what comes after `a` goes on among itself, and `a` is no part of it
      obtain ⟨b, hb, hab⟩ := h a ha
      have hshorter : (names.filter fun c => TransGen r a c).length < n := by
        rw [← hn]
        exact List.length_filter_lt_length_iff_exists.mpr ⟨a, ha, by simpa using hcircle⟩
      have hnext : ∀ c ∈ names.filter fun c => TransGen r a c,
          ∃ d ∈ names.filter fun c => TransGen r a c, r c d := by
        intro c hc
        obtain ⟨hc, hac⟩ := List.mem_filter.mp hc
        obtain ⟨d, hd, hcd⟩ := h c hc
        exact ⟨d, List.mem_filter.mpr ⟨hd, by simpa using (of_decide_eq_true hac).tail hcd⟩, hcd⟩
      have hmem : b ∈ names.filter fun c => TransGen r a c :=
        List.mem_filter.mpr ⟨hb, by simpa using .single hab⟩
      exact .head hab (ih _ hshorter hnext hmem rfl)

end

namespace DependencyGraph

variable {g : DependencyGraph} {name d : String}

/-! ### The names that are not released -/

/-- Whether an added name reads another one. -/
def Reads (g : DependencyGraph) (name d : String) : Prop := name ∈ g.names ∧ d ∈ g.inner name

theorem mem_names_of_leadsToCircle (h : LeadsToCircle g.Reads name) : name ∈ g.names := by
  obtain ⟨d, hd, -⟩ := h.exists_next
  exact hd.1

/-- A name that was taken leads to no circle, since what it reads was taken before it. -/
theorem Taking.not_leadsToCircle {taken queue : List String} {w : Waiting}
    (ht : Taking g taken queue w) : ∀ name ∈ taken, ¬ LeadsToCircle g.Reads name := by
  have key : ∀ n, ∀ front name back, front.length = n → taken = front ++ name :: back →
      ¬ LeadsToCircle g.Reads name := by
    -- on the place in the order: a way to a circle starts with a name that was taken earlier
    intro n
    induction n using Nat.strongRecOn with
    | _ n ih =>
      intro front name back hn heq hcircle
      obtain ⟨d, hd, hcircle⟩ := hcircle.exists_next
      obtain ⟨front', between, rfl⟩ := List.append_of_mem (ht.before heq d hd.2)
      refine ih front'.length ?_ front' d (between ++ name :: back) rfl ?_ hcircle
      · rw [← hn, List.length_append, List.length_cons]
        omega
      · rw [heq, List.append_assoc, List.cons_append]
  intro name hname
  obtain ⟨front, back, heq⟩ := List.append_of_mem hname
  exact key front.length front name back rfl heq

/-- **What is released**: the added names that lead to no circle. -/
theorem mem_released_iff (h : g.IsConsistent) (hname : name ∈ g.names) :
    name ∈ g.released ↔ ¬ LeadsToCircle g.Reads name := by
  obtain ⟨w, ht⟩ := taking_released h
  constructor
  · exact ht.not_leadsToCircle name
  · intro hcircle
    by_contra hnot
    have hnext : ∀ other ∈ g.names.filter (· ∉ g.released),
        ∃ d ∈ g.names.filter (· ∉ g.released), g.Reads other d := by
      intro other hother
      obtain ⟨hother, hnot⟩ := List.mem_filter.mp hother
      -- it was not ready at the end, so something that it reads is missing too
      have hready : ¬ ∀ d ∈ g.inner other, d ∈ g.released := by
        rw [← ht.ready other hother]
        simpa using hnot
      push Not at hready
      obtain ⟨d, hd, hmissing⟩ := hready
      have hadded : d ∈ g.names := by simpa using (List.mem_filter.mp hd).2
      exact ⟨d, List.mem_filter.mpr ⟨hadded, by simpa using hmissing⟩, hother, hd⟩
    exact hcircle (leadsToCircle_of_forall hnext
      (List.mem_filter.mpr ⟨hname, by simpa using hnot⟩))

/-- With a circle there is no order, and the failure lists what leads to a circle. -/
theorem order_of_leadsToCircle (h : g.IsConsistent) (hcircle : LeadsToCircle g.Reads name) :
    ∃ listed, g.order = .error (.circular listed) ∧ listed.Sublist g.names ∧
      ∀ name, name ∈ listed ↔ LeadsToCircle g.Reads name := by
  refine ⟨g.names.filter (· ∉ g.released), ?_, List.filter_sublist, fun other => ?_⟩
  · have hname := mem_names_of_leadsToCircle hcircle
    rw [DependencyGraph.order, if_neg]
    · rfl
    · intro hlength
      exact (mem_released_iff h hname).mp ((length_released_iff h).mp hlength name hname) hcircle
  · rw [List.mem_filter, decide_not, Bool.not_eq_true', decide_eq_false_iff_not]
    constructor
    · rintro ⟨hother, hnot⟩
      by_contra hno
      exact hnot ((mem_released_iff h hother).mpr hno)
    · intro hother
      have hadded := mem_names_of_leadsToCircle hother
      exact ⟨hadded, fun hreleased => (mem_released_iff h hadded).mp hreleased hother⟩

/-- Without a circle there is an order. -/
theorem exists_order_of_forall (h : g.IsConsistent)
    (hno : ∀ name, ¬ LeadsToCircle g.Reads name) : ∃ order, g.order = .ok order :=
  ⟨_, order_of_forall_released h fun name hname => (mem_released_iff h hname).mpr (hno name)⟩

/-- There is an order just if there is no circle. -/
theorem exists_order_iff (h : g.IsConsistent) :
    (∃ order, g.order = .ok order) ↔ ∀ name, ¬ LeadsToCircle g.Reads name := by
  refine ⟨?_, exists_order_of_forall h⟩
  rintro ⟨order, ho⟩ name hcircle
  have hname := mem_names_of_leadsToCircle hcircle
  have hreleased : name ∈ g.released := by
    rw [← (order_eq_ok_iff.mp ho).1]
    exact (isTopological_of_order h ho).perm.mem_iff.mpr hname
  exact (mem_released_iff h hname).mp hreleased hcircle

/-! ### Graphs of different names -/

/-- Whether a name is given with a dependency that is among the given names itself. -/
def DependsOn (nodes : List (String × List String)) (name d : String) : Prop :=
  ∃ dependencies, (name, dependencies) ∈ nodes ∧ d ∈ dependencies ∧ d ∈ nodes.map Prod.fst

variable {nodes : List (String × List String)}

theorem names_ofNodes (h : (nodes.map Prod.fst).Nodup) :
    (ofNodes nodes).IsConsistent ∧ (ofNodes nodes).names = nodes.map Prod.fst := by
  obtain ⟨hconsistent, hnames, -, -⟩ := addNodes_spec nodes isConsistent_empty h
  exact ⟨hconsistent, hnames⟩

theorem reads_ofNodes (h : (nodes.map Prod.fst).Nodup) :
    (ofNodes nodes).Reads = DependsOn nodes := by
  obtain ⟨-, hnames, hdependencies, -⟩ := addNodes_spec nodes isConsistent_empty h
  have hnames : (ofNodes nodes).names = nodes.map Prod.fst := hnames
  funext name d
  rw [Reads, inner, List.mem_filter, hnames, decide_eq_true_eq, eq_iff_iff]
  constructor
  · rintro ⟨hname, hd, hadded⟩
    obtain ⟨⟨_, dependencies⟩, hmem, rfl⟩ := List.mem_map.mp hname
    have hdeps : (ofNodes nodes).dependenciesOf _ = _ := hdependencies _ dependencies hmem
    rw [hdeps, List.mem_eraseDups] at hd
    exact ⟨dependencies, hmem, hd, hadded⟩
  · rintro ⟨dependencies, hmem, hd, hadded⟩
    have hdeps : (ofNodes nodes).dependenciesOf _ = _ := hdependencies _ dependencies hmem
    rw [hdeps, List.mem_eraseDups]
    exact ⟨List.mem_map_of_mem hmem, hd, hadded⟩

/-- **The evaluation order**: names that are all different are put in an order in which each comes
after its dependencies among them, if these make no circle. If they do, there is no order, and the
failure lists, in the order in which they were added, the names that are on a circle or depend,
directly or through others, on one that is. -/
theorem order_ofNodes (h : (nodes.map Prod.fst).Nodup) :
    (∃ order, (ofNodes nodes).order = .ok order ∧ order.Perm (nodes.map Prod.fst) ∧
      (∀ front name back, order = front ++ name :: back →
        ∀ d, DependsOn nodes name d → d ∈ front) ∧
      ∀ name, ¬ TransGen (DependsOn nodes) name name) ∨
    ∃ listed, (ofNodes nodes).order = .error (.circular listed) ∧
      (Error.circular listed).message =
        some ("Circular reference detected involving: " ++ ", ".intercalate listed) ∧
      listed.Sublist (nodes.map Prod.fst) ∧
      (∀ name, name ∈ listed ↔
        ∃ c, ReflTransGen (DependsOn nodes) name c ∧ TransGen (DependsOn nodes) c c) ∧
      ∃ name, TransGen (DependsOn nodes) name name := by
  obtain ⟨hconsistent, hnames⟩ := names_ofNodes h
  have hreads := reads_ofNodes h
  by_cases hcircle : ∃ name, LeadsToCircle (DependsOn nodes) name
  · right
    obtain ⟨name, hcircle⟩ := hcircle
    obtain ⟨c, -, hc⟩ := id hcircle
    rw [← hreads] at hcircle
    obtain ⟨listed, horder, hlisted, hmem⟩ := order_of_leadsToCircle hconsistent hcircle
    rw [hnames] at hlisted
    rw [hreads] at hmem
    exact ⟨listed, horder, rfl, hlisted, hmem, c, hc⟩
  · left
    have hno : ∀ name, ¬ LeadsToCircle (DependsOn nodes) name := not_exists.mp hcircle
    obtain ⟨order, horder⟩ := exists_order_of_forall hconsistent (hreads ▸ hno)
    have htopological := isTopological_of_order hconsistent horder
    refine ⟨order, horder, hnames ▸ htopological.perm, ?_, fun name hname =>
      hno name (leadsToCircle_of_transGen hname)⟩
    intro front name back heq d hd
    rw [← hreads] at hd
    exact htopological.before heq d hd.2

/-- Two names that read each other, one that reads them, one that reads a name from outside twice,
and one that reads that one. -/
def entangled : List (String × List String) :=
  [("c", ["a", "d"]), ("a", ["b"]), ("d", ["x", "x"]), ("b", ["a"]), ("e", ["d"])]

/-- Neither the two names on the circle nor the one behind it are released. -/
theorem order_entangled : (entangled.map Prod.fst).Nodup ∧
    (ofNodes entangled).order = .error (.circular ["c", "a", "b"]) ∧
    ∃ c, ReflTransGen (DependsOn entangled) "c" c ∧ TransGen (DependsOn entangled) c c := by
  have hnodup : (entangled.map Prod.fst).Nodup := by decide
  have hrun : (ofNodes entangled).order = .error (.circular ["c", "a", "b"]) := by rfl
  refine ⟨hnodup, hrun, ?_⟩
  rcases order_ofNodes hnodup with ⟨order, horder, -⟩ | ⟨listed, horder, -, -, hmem, -⟩
  · rw [hrun] at horder
    cases horder
  · rw [hrun] at horder
    obtain rfl := Error.circular.inj (Except.error.inj horder)
    exact (hmem "c").mp (by simp)

end DependencyGraph

end Formulary
