import Formulary.Proofs.DependencyGraph.Circles
import Formulary.Proofs.DependencyGraph.Edges

/-!
# Layers of the evaluation order

The depth of a name is the length of the longest way down its dependencies: zero without any, and
else one more than the greatest depth among them (`IsDepth`). Without circles there is such a depth
(`depth`), and the evaluation order goes through the names depth by depth. Names that have the same
dependencies stay in the order in which they were added (`order_layers`).

The invariant of the queue is `Layered`: taken and queued names together are sorted by depth, and
the queued ones have at most two depths, which follow each other. So the readers that a name
releases at the end of the queue are exactly one deeper than the name, and nothing in the queue is
deeper than they are. Names with the same dependencies are released by the same name, the last of
these that is taken, and it has its readers in the order in which they were added.
-/

namespace Formulary

open Relation

/-! ### Depth -/

/-- Whether a function is the depth of everything below which a relation leads: zero where it leads
nowhere, and else one more than the greatest depth where it leads. -/
structure IsDepth {α : Type} (r : α → α → Prop) (depth : α → ℕ) : Prop where
  zero {a : α} (h : ∀ b, ¬ r a b) : depth a = 0
  lt {a b : α} (h : r a b) : depth b < depth a
  next {a b : α} (h : r a b) : ∃ c, r a c ∧ depth a = depth c + 1

namespace DependencyGraph

/-- The depth of a name, with ways down its dependencies of at most `bound` steps. -/
def depthWithin (g : DependencyGraph) : ℕ → String → ℕ
  | 0, _ => 0
  | bound + 1, name => ((g.inner name).map (g.depthWithin bound)).max?.elim 0 (· + 1)

/-- The depth of a name. A way without circles takes at most as many steps as there are names. -/
def depth (g : DependencyGraph) (name : String) : ℕ := g.depthWithin g.names.length name

variable {g : DependencyGraph} {name : String} {order : List String}

theorem inner_eq_nil_of_not_mem (h : name ∉ g.names) : g.inner name = [] := by
  rw [inner, dependenciesOf, Table.get?_eq_none_iff.mpr h]
  rfl

theorem depthWithin_eq_zero (h : g.inner name = []) (bound : ℕ) : g.depthWithin bound name = 0 := by
  cases bound with
  | zero => rfl
  | succ bound =>
    rw [depthWithin, h]
    rfl

/-- No way down from a name in a topological order is longer than the part of the order before
it. -/
theorem IsTopological.depthWithin_eq (ho : g.IsTopological order) {front back : List String}
    (heq : order = front ++ name :: back) {bound bound' : ℕ} (hbound : front.length < bound)
    (hbound' : front.length < bound') : g.depthWithin bound name = g.depthWithin bound' name := by
  induction hn : front.length using Nat.strongRecOn generalizing front name back bound bound' with
  | _ n ih =>
    obtain ⟨bound, rfl⟩ := Nat.exists_eq_add_one_of_ne_zero (Nat.ne_zero_of_lt hbound)
    obtain ⟨bound', rfl⟩ := Nat.exists_eq_add_one_of_ne_zero (Nat.ne_zero_of_lt hbound')
    have hsame : ∀ d ∈ g.inner name, g.depthWithin bound d = g.depthWithin bound' d := by
      intro d hd
      obtain ⟨front', between, rfl⟩ := List.append_of_mem (ho.before heq d hd)
      rw [List.length_append, List.length_cons] at hn hbound hbound'
      have hplace : order = front' ++ d :: (between ++ name :: back) := by
        rw [heq, List.append_assoc, List.cons_append]
      exact ih front'.length (by omega) hplace (by omega) (by omega) rfl
    rw [depthWithin, depthWithin, List.map_congr_left hsame]

theorem IsTopological.depth_eq (ho : g.IsTopological order) (hname : name ∈ g.names) :
    g.depth name = ((g.inner name).map g.depth).max?.elim 0 (· + 1) := by
  obtain ⟨front, back, heq⟩ := List.append_of_mem (ho.perm.mem_iff.mpr hname)
  have hlt : front.length < g.names.length := by
    rw [← ho.perm.length_eq, heq, List.length_append, List.length_cons]
    omega
  exact ho.depthWithin_eq heq hlt (Nat.lt_succ_of_lt hlt)

/-- What reads something is one deeper than the deepest name that it reads. -/
theorem IsTopological.exists_depth_eq (ho : g.IsTopological order) {d : String}
    (h : g.Reads name d) : ∃ c, g.Reads name c ∧ g.depth name = g.depth c + 1 ∧
      g.depth d ≤ g.depth c := by
  have hdepth := ho.depth_eq h.1
  rcases hmax : ((g.inner name).map g.depth).max? with - | most
  · have hnil := List.map_eq_nil_iff.mp (List.max?_eq_none_iff.mp hmax)
    cases hnil ▸ h.2
  · rw [hmax] at hdepth
    obtain ⟨hmem, hmost⟩ := List.max?_eq_some_iff.mp hmax
    obtain ⟨c, hc, rfl⟩ := List.mem_map.mp hmem
    exact ⟨c, ⟨h.1, hc⟩, hdepth, hmost _ (List.mem_map_of_mem h.2)⟩

/-- Where there is a topological order, there is a depth. -/
theorem IsTopological.isDepth (ho : g.IsTopological order) : IsDepth g.Reads g.depth where
  zero {a} h := by
    refine depthWithin_eq_zero ?_ _
    by_cases ha : a ∈ g.names
    · exact List.eq_nil_iff_forall_not_mem.mpr fun d hd => h d ⟨ha, hd⟩
    · exact inner_eq_nil_of_not_mem ha
  lt h := by
    obtain ⟨c, -, heq, hle⟩ := ho.exists_depth_eq h
    omega
  next h := by
    obtain ⟨c, hc, heq, -⟩ := ho.exists_depth_eq h
    exact ⟨c, hc, heq⟩

/-! ### The queue -/

/-- The state of the queue by depth: the names that were taken and the queued ones after them are
sorted by depth, those in the queue have at most two depths, and those that read the same are in the
order in which they were added. -/
structure Layered (g : DependencyGraph) (depth : String → ℕ) (taken queue : List String) :
    Prop where
  sorted : (taken ++ queue).Pairwise fun a b => depth a ≤ depth b
  narrow : ∀ a ∈ queue, ∀ b ∈ queue, depth b ≤ depth a + 1
  stable : (taken ++ queue).Pairwise fun a b =>
    (∀ d, g.Reads a d ↔ g.Reads b d) → g.names.idxOf a < g.names.idxOf b

theorem pairwise_idxOf {names : List String} (h : names.Nodup) :
    names.Pairwise fun a b => names.idxOf a < names.idxOf b := by
  refine List.pairwise_iff_getElem.mpr fun i j hi hj hij => ?_
  rwa [h.idxOf_getElem i hi, h.idxOf_getElem j hj]

section

variable {depth : String → ℕ} {taken queue : List String} {w : Waiting}

/-- A name that is ready reads none that is still queued. -/
theorem Taking.not_reads (ht : Taking g taken (name :: queue) w) {other : String}
    (hother : other ∈ taken ++ name :: queue) : ¬ g.Reads other name := fun hreads =>
  ht.not_mem_taken ((ht.ready other (ht.names other hother)).mp hother name hreads.2)

namespace Layered

theorem le_of_mem_taken (hl : Layered g depth taken (name :: queue)) {a : String}
    (ha : a ∈ taken ++ [name]) : depth a ≤ depth name := by
  rcases List.mem_append.mp ha with ha | ha
  · exact (List.pairwise_append.mp hl.sorted).2.2 a ha name List.mem_cons_self
  · exact Nat.le_of_eq (congrArg depth (List.mem_singleton.mp ha))

theorem le_of_mem_queue (hl : Layered g depth taken (name :: queue)) {a : String}
    (ha : a ∈ queue) : depth name ≤ depth a :=
  List.rel_of_pairwise_cons (List.pairwise_append.mp hl.sorted).2.1 ha

end Layered

variable (h : g.IsConsistent)
include h

/-- At the start only names of depth zero are queued. -/
theorem layered_start (hdepth : IsDepth g.Reads depth) : Layered g depth []
    (g.names.filter fun name => (Table.get? g.waiting name).getD 0 = 0) := by
  have ht := taking_start h
  generalize hqueue : g.names.filter _ = queue at ht
  have hzero : ∀ a ∈ queue, depth a = 0 := by
    intro a ha
    refine hdepth.zero fun d hd => ?_
    cases (ht.ready a hd.1).mp ha d hd.2
  refine ⟨?_, ?_, ?_⟩
  · refine List.pairwise_of_forall_mem_list fun a ha b _ => ?_
    rw [hzero a ha]
    exact Nat.zero_le _
  · intro a ha b hb
    rw [hzero b hb]
    exact Nat.zero_le _
  · rw [List.nil_append, ← hqueue]
    exact ((pairwise_idxOf h.names).sublist List.filter_sublist).imp fun hab => fun _ => hab

/-- The readers that a name releases are in the order in which they were added. -/
theorem sublist_release (hreaders : ∀ d, (g.dependentsOf d).Sublist g.names) (name : String)
    (w : Waiting) : (release w (g.outer name)).2.Sublist g.names := by
  rw [(release_eq (nodup_outer h name) w).1]
  exact List.filter_sublist.trans (List.filter_sublist.trans (hreaders name))

namespace Layered

/-- What is released by taking a name is one deeper than the name. -/
theorem eq_of_mem_release (hdepth : IsDepth g.Reads depth)
    (ht : Taking g taken (name :: queue) w) (hl : Layered g depth taken (name :: queue))
    {reader : String} (hreader : reader ∈ (release w (g.outer name)).2) :
    depth reader = depth name + 1 := by
  have hadded := (ht.of_mem_release h hreader).1
  obtain ⟨hname, hall⟩ := (ht.mem_release_iff h hadded).mp hreader
  have hreads : g.Reads reader name := ⟨hadded, hname⟩
  obtain ⟨c, hc, heq⟩ := hdepth.next hreads
  have hle := hl.le_of_mem_taken (hall c hc.2)
  have hlt := hdepth.lt hreads
  omega

/-- Taking one name keeps the state of the queue. -/
theorem step (hdepth : IsDepth g.Reads depth)
    (hreaders : ∀ d, (g.dependentsOf d).Sublist g.names)
    (ht : Taking g taken (name :: queue) w) (hl : Layered g depth taken (name :: queue)) :
    Layered g depth (taken ++ [name]) (queue ++ (release w (g.outer name)).2) := by
  -- what is released lies one layer further than the name, and no queued name lies further
  have hreleased : ∀ reader ∈ (release w (g.outer name)).2, depth reader = depth name + 1 :=
    fun reader => hl.eq_of_mem_release h hdepth ht
  have hbound : ∀ a ∈ queue ++ (release w (g.outer name)).2,
      depth name ≤ depth a ∧ depth a ≤ depth name + 1 := by
    intro a ha
    rcases List.mem_append.mp ha with ha | ha
    · exact ⟨hl.le_of_mem_queue ha,
        hl.narrow name List.mem_cons_self a (List.mem_cons_of_mem _ ha)⟩
    · have := hreleased a ha
      omega
  have hsplit : (taken ++ [name]) ++ (queue ++ (release w (g.outer name)).2) =
      (taken ++ name :: queue) ++ (release w (g.outer name)).2 := by
    rw [← List.append_assoc, List.append_assoc taken, List.singleton_append]
  refine ⟨?_, fun a ha b hb => ?_, ?_⟩
  · rw [hsplit, List.pairwise_append]
    refine ⟨hl.sorted, List.pairwise_of_forall_mem_list fun a ha b hb => ?_, fun a ha b hb => ?_⟩
    · exact Nat.le_of_eq ((hreleased a ha).trans (hreleased b hb).symm)
    · rw [hreleased b hb]
      rw [← List.singleton_append, ← List.append_assoc] at ha
      rcases List.mem_append.mp ha with ha | ha
      · exact Nat.le_succ_of_le (hl.le_of_mem_taken ha)
      · exact (hbound a (List.mem_append_left _ ha)).2
  · have := (hbound a ha).1
    have := (hbound b hb).2
    omega
  · rw [hsplit, List.pairwise_append]
    refine ⟨hl.stable, ?_, fun a ha b hb hsame => ?_⟩
    -- readers are listed in the order in which they were added
    · exact ((pairwise_idxOf h.names).sublist (sublist_release h hreaders name w)).imp
        fun hab => fun _ => hab
    · -- what is ready already does not read the name, and what is released does
      have hadded := (ht.of_mem_release h hb).1
      have hname := ((ht.mem_release_iff h hadded).mp hb).1
      exact absurd ((hsame name).mpr ⟨hadded, hname⟩) (ht.not_reads ha)

/-- Taking from the queue keeps its state. -/
theorem run (hdepth : IsDepth g.Reads depth)
    (hreaders : ∀ d, (g.dependentsOf d).Sublist g.names) (bound : ℕ)
    (ht : Taking g taken queue w) (hl : Layered g depth taken queue) :
    ∃ queue', Layered g depth (taken ++ takeFrom g bound queue w) queue' := by
  induction bound generalizing taken queue w with
  | zero => exact ⟨queue, by simpa [takeFrom] using hl⟩
  | succ bound ih =>
    cases queue with
    | nil => exact ⟨[], by simpa [takeFrom] using hl⟩
    | cons name queue =>
      obtain ⟨queue', hl'⟩ := ih (ht.step h) (hl.step h hdepth hreaders ht)
      refine ⟨queue', ?_⟩
      rw [takeFrom]
      simpa [outer] using hl'

end Layered

/-- What is released is released in layers. -/
theorem exists_layered_released (hdepth : IsDepth g.Reads depth)
    (hreaders : ∀ d, (g.dependentsOf d).Sublist g.names) :
    ∃ queue, Layered g depth g.released queue :=
  (layered_start h hdepth).run h hdepth hreaders g.names.length (taking_start h)

end

/-! ### Graphs of different names -/

variable {nodes : List (String × List String)}

/-- The readers of a name are recorded in the order in which they were added. -/
theorem sublist_dependentsOf_ofNodes (nodes : List (String × List String)) (d : String) :
    ((ofNodes nodes).dependentsOf d).Sublist (nodes.map Prod.fst) := by
  induction nodes using List.reverseRecOn with
  | nil => exact List.Sublist.refl []
  | append_singleton nodes node ih =>
    rw [ofNodes_concat, dependentsOf_addNode, List.map_append]
    split
    · rw [including]
      split
      · exact ih.trans (List.sublist_append_left ..)
      · exact ih.append (List.Sublist.refl [node.1])
    · exact ih.trans (List.sublist_append_left ..)

/-- Two members of a list are in one order or the other. -/
theorem pair_sublist_or {names : List String} {a b : String} (ha : a ∈ names) (hb : b ∈ names)
    (hne : a ≠ b) : [a, b].Sublist names ∨ [b, a].Sublist names := by
  obtain ⟨front, back, rfl⟩ := List.append_of_mem ha
  rcases List.mem_append.mp hb with hb | hb
  · exact .inr ((List.singleton_sublist.mpr hb).append
      (List.singleton_sublist.mpr List.mem_cons_self))
  · have hb : b ∈ back := (List.mem_cons.mp hb).resolve_left hne.symm
    exact .inl (((List.singleton_sublist.mpr hb).cons_cons a).trans
      (List.sublist_append_right ..))

/-- **The evaluation order is layered and stable.** Names that are all different and have no circle
among their dependencies are ordered by depth. Two names with the same dependencies among them are
in the order in which they were added. -/
theorem order_layers (hnodup : (nodes.map Prod.fst).Nodup)
    (hacyclic : ∀ name, ¬ TransGen (DependsOn nodes) name name) :
    IsDepth (DependsOn nodes) (ofNodes nodes).depth ∧
    ∃ order, (ofNodes nodes).order = .ok order ∧ order.Perm (nodes.map Prod.fst) ∧
      order.Pairwise (fun a b => (ofNodes nodes).depth a ≤ (ofNodes nodes).depth b) ∧
      ∀ a b, (∀ d, DependsOn nodes a d ↔ DependsOn nodes b d) →
        [a, b].Sublist (nodes.map Prod.fst) → [a, b].Sublist order := by
  obtain ⟨hconsistent, hnames⟩ := names_ofNodes hnodup
  have hreads := reads_ofNodes hnodup
  have hno : ∀ name, ¬ LeadsToCircle (ofNodes nodes).Reads name := by
    rintro name ⟨c, -, hc⟩
    exact hacyclic c (hreads ▸ hc)
  obtain ⟨order, horder⟩ := (exists_order_iff hconsistent).mpr hno
  have htopological := isTopological_of_order hconsistent horder
  have hdepth := htopological.isDepth
  obtain ⟨queue, hl⟩ := exists_layered_released hconsistent hdepth
    fun d => hnames ▸ sublist_dependentsOf_ofNodes nodes d
  rw [← (order_eq_ok_iff.mp horder).1] at hl
  refine ⟨hreads ▸ hdepth, order, horder, hnames ▸ htopological.perm,
    hl.sorted.sublist (List.sublist_append_left ..), fun a b hsame hab => ?_⟩
  have hmem : ∀ c ∈ [a, b], c ∈ order := fun c hc =>
    htopological.perm.mem_iff.mpr (hnames ▸ hab.mem hc)
  have hne : a ≠ b := by simpa using hab.nodup hnodup
  rcases pair_sublist_or (hmem a (by simp)) (hmem b (by simp)) hne with hsub | hsub
  · exact hsub
  · -- the other way round they would have been added the other way round
    have hafter := List.pairwise_iff_forall_sublist.mp hl.stable
      (hsub.trans (List.sublist_append_left ..)) fun d => hreads ▸ (hsame d).symm
    have hbefore := List.pairwise_iff_forall_sublist.mp (pairwise_idxOf hnodup) hab
    rw [hnames] at hafter
    omega

/-- Two names that read the same two names, which are added after them or between them, and one that
reads the first of them. The second one also reads a name from outside. -/
def diamonds : List (String × List String) :=
  [("c", ["a", "b"]), ("e", ["c"]), ("b", []), ("d", ["b", "x", "a", "b"]), ("a", ["x"])]

/-- The two names that read the same keep their order. -/
theorem order_diamonds : (diamonds.map Prod.fst).Nodup ∧
    (∀ name, ¬ TransGen (DependsOn diamonds) name name) ∧
    (ofNodes diamonds).order = .ok ["b", "a", "c", "d", "e"] ∧
    ∃ order, (ofNodes diamonds).order = .ok order ∧ ["c", "d"].Sublist order := by
  have hnodup : (diamonds.map Prod.fst).Nodup := by decide
  have hrun : (ofNodes diamonds).order = .ok ["b", "a", "c", "d", "e"] := by rfl
  have hacyclic : ∀ name, ¬ TransGen (DependsOn diamonds) name name := by
    intro name hcircle
    rw [← reads_ofNodes hnodup] at hcircle
    exact (exists_order_iff (names_ofNodes hnodup).1).mp ⟨_, hrun⟩ name
      (leadsToCircle_of_transGen hcircle)
  refine ⟨hnodup, hacyclic, hrun, ?_⟩
  have hsame : ∀ d, DependsOn diamonds "c" d ↔ DependsOn diamonds "d" d := by
    intro d
    simp only [DependsOn, diamonds, List.mem_cons, Prod.mk.injEq, true_and, String.reduceEq,
      false_and, List.not_mem_nil, or_self, or_false, List.map_cons, List.map_nil, exists_eq_left,
      false_or, and_congr_left_iff]
    grind
  obtain ⟨-, order, horder, -, -, hstable⟩ := order_layers hnodup hacyclic
  exact ⟨order, horder, hstable "c" "d" hsame (by decide)⟩

end DependencyGraph

end Formulary
