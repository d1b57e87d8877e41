import Formulary.DependencyGraph
import Formulary.Proofs.FirstUse
import Formulary.Proofs.Table
import Mathlib.Data.List.Perm.Subperm

/-!
# The evaluation order

A graph built from names that are all different records each dependency twice, at the name that
reads and at the name that is read, and the two records agree (`IsConsistent`). On such a graph the
queue is correct: what it gives is an order of all names in which each comes after the added names
it reads (`isTopological_of_order`), and whenever there is such an order the queue finds one
(`exists_order_of_isTopological`).

The invariant of the queue is `Taking`: the names taken or queued are those whose dependencies are
all taken, and every name waits for as many dependencies as are not taken.
-/

namespace Formulary

namespace DependencyGraph

variable {g : DependencyGraph}

/-! ### Consistent graphs -/

/-- Whether the two records of the dependencies agree, and each lists nothing twice. -/
structure IsConsistent (g : DependencyGraph) : Prop where
  names : g.names.Nodup
  dependencies : ∀ name, (g.dependenciesOf name).Nodup
  dependents : ∀ name, (g.dependentsOf name).Nodup
  mem_dependentsOf : ∀ {name reader}, reader ∈ g.dependentsOf name ↔
    reader ∈ g.names ∧ name ∈ g.dependenciesOf reader

theorem isConsistent_empty : empty.IsConsistent where
  names := List.nodup_nil
  dependencies _ := List.nodup_nil
  dependents _ := List.nodup_nil
  mem_dependentsOf := by simp [empty, DependencyGraph.names, dependentsOf, Table.keys]

theorem mem_including {items : List String} {item other : String} :
    other ∈ including items item ↔ other ∈ items ∨ other = item := by
  rw [including]
  split
  · next h =>
    constructor
    · exact .inl
    · rintro (h' | rfl)
      · exact h'
      · exact h
  · simp

theorem nodup_including {items : List String} (h : items.Nodup) (item : String) :
    (including items item).Nodup := by
  rw [including]
  split
  · exact h
  · next hi => exact List.nodup_append.mpr ⟨h, by simp, by grind⟩

/-- The readers of a name after one reader was added to several names. -/
theorem readers_addReaders (reader : String) (added : List String)
    (dependents : Table String (List String)) (name : String) :
    (Table.get? (added.foldl (addReader · reader) dependents) name).getD [] =
      if name ∈ added then including ((Table.get? dependents name).getD []) reader
      else (Table.get? dependents name).getD [] := by
  induction added generalizing dependents with
  | nil => rfl
  | cons first rest ih =>
    have hidem : ∀ items, including (including items reader) reader = including items reader := by
      intro items
      rw [including, if_pos (mem_including.mpr (.inr rfl))]
    rw [List.foldl_cons, ih, addReader, Table.get?_insert]
    by_cases hfirst : first = name
    · subst hfirst
      by_cases hrest : first ∈ rest
      · simp [hrest, hidem]
      · simp [hrest]
    · have hne : ¬ name = first := fun h => hfirst h.symm
      simp [hfirst, hne]

theorem names_addNode {name : String} (h : name ∉ g.names) (dependencies : List String) :
    (g.addNode name dependencies).names = g.names ++ [name] := by
  rw [names] at h
  rw [names, addNode, Table.keys_insert, if_neg h, names]

theorem dependenciesOf_addNode (name : String) (dependencies : List String) (other : String) :
    (g.addNode name dependencies).dependenciesOf other =
      if name = other then dependencies.eraseDups else g.dependenciesOf other := by
  rw [dependenciesOf, addNode, Table.get?_insert, dependenciesOf]
  by_cases h : name = other
  · simp [h]
  · simp [h]

theorem dependentsOf_addNode (name : String) (dependencies : List String) (other : String) :
    (g.addNode name dependencies).dependentsOf other =
      if other ∈ dependencies then including (g.dependentsOf other) name
      else g.dependentsOf other := by
  rw [dependentsOf, addNode, readers_addReaders, dependentsOf]
  simp only [List.mem_eraseDups]

/-- Adding a new name keeps the records in agreement. -/
theorem IsConsistent.addNode (h : g.IsConsistent) {name : String} (hname : name ∉ g.names)
    (dependencies : List String) : (g.addNode name dependencies).IsConsistent where
  names := by
    rw [names_addNode hname]
    exact List.nodup_append.mpr ⟨h.names, by simp, by grind⟩
  dependencies other := by
    rw [dependenciesOf_addNode]
    split
    · exact nodup_eraseDups dependencies
    · exact h.dependencies other
  dependents other := by
    rw [dependentsOf_addNode]
    split
    · exact nodup_including (h.dependents other) name
    · exact h.dependents other
  mem_dependentsOf {other reader} := by
    -- the new name reads its dependencies, and no other name reads more than before
    have hmem : reader ∈ (g.addNode name dependencies).dependentsOf other ↔
        reader ∈ g.dependentsOf other ∨ (other ∈ dependencies ∧ reader = name) := by
      rw [dependentsOf_addNode]
      split
      · next ho => simp [mem_including, ho]
      · next ho => simp [ho]
    rw [hmem, h.mem_dependentsOf, names_addNode hname, dependenciesOf_addNode]
    by_cases hreader : name = reader
    · subst hreader
      simp [hname]
    · have hne : ¬ reader = name := fun h => hreader h.symm
      simp [hreader, hne]

/-- The graph of several names added to one that has none of them. -/
theorem addNodes_spec (nodes : List (String × List String)) (h : g.IsConsistent)
    (hnodup : (g.names ++ nodes.map Prod.fst).Nodup) :
    let g' := nodes.foldl (fun g node => g.addNode node.1 node.2) g
    g'.IsConsistent ∧ g'.names = g.names ++ nodes.map Prod.fst ∧
      (∀ name dependencies, (name, dependencies) ∈ nodes →
        g'.dependenciesOf name = dependencies.eraseDups) ∧
      ∀ name ∉ nodes.map Prod.fst, g'.dependenciesOf name = g.dependenciesOf name := by
  induction nodes generalizing g with
  | nil => exact ⟨h, by simp, by simp, by simp⟩
  | cons node rest ih =>
    obtain ⟨name, dependencies⟩ := node
    have hname : name ∉ g.names := by
      intro hm
      rw [List.nodup_append] at hnodup
      exact hnodup.2.2 name hm name (by simp) rfl
    have hnames := names_addNode hname dependencies
    obtain ⟨hcons, hall, hdeps, hothers⟩ := ih (h.addNode hname dependencies)
      (by simpa [hnames] using hnodup)
    -- later nodes have other names, so they leave what this one reads
    have hrest : name ∉ rest.map Prod.fst := by
      rw [List.nodup_append] at hnodup
      simpa using (List.nodup_cons.mp hnodup.2.1).1
    refine ⟨hcons, by simpa [hnames] using hall, ?_, ?_⟩
    · intro other deps hmem
      rcases List.mem_cons.mp hmem with heq | hmem
      · obtain ⟨rfl, rfl⟩ := Prod.mk.injEq .. ▸ heq
        rw [List.foldl_cons, hothers other hrest, dependenciesOf_addNode, if_pos rfl]
      · exact hdeps other deps hmem
    · intro other hother
      simp only [List.map_cons, List.mem_cons, not_or] at hother
      rw [List.foldl_cons, hothers other hother.2, dependenciesOf_addNode,
        if_neg fun h => hother.1 h.symm]

/-! ### Releasing readers -/

/-- Releasing takes one from what each reader waits for, and gives those that wait for no more. -/
theorem release_eq {readers : List String} (h : readers.Nodup) (w : Waiting) :
    (release w readers).2 = readers.filter (fun reader => (Table.get? w reader).getD 0 - 1 = 0) ∧
      ∀ name, Table.get? (release w readers).1 name =
        if name ∈ readers then some ((Table.get? w name).getD 0 - 1) else Table.get? w name := by
  induction readers generalizing w with
  | nil => exact ⟨rfl, fun name => rfl⟩
  | cons reader rest ih =>
    obtain ⟨hreader, hrest⟩ := List.nodup_cons.mp h
    obtain ⟨hreleased, hwaiting⟩ :=
      ih hrest (Table.insert w reader ((Table.get? w reader).getD 0 - 1))
    -- the readers are different, so letting one go leaves the others waiting as before
    have hne : ∀ name ∈ rest, ¬ reader = name := by
      rintro name hname rfl
      exact hreader hname
    have hfilter : rest.filter (fun name => (Table.get?
        (Table.insert w reader ((Table.get? w reader).getD 0 - 1)) name).getD 0 - 1 = 0) =
        rest.filter (fun name => (Table.get? w name).getD 0 - 1 = 0) := by
      refine List.filter_congr fun name hname => ?_
      rw [Table.get?_insert, if_neg (by simpa using hne name hname)]
    constructor
    · show (if (Table.get? w reader).getD 0 - 1 = 0 then reader :: _ else _) = _
      rw [hreleased, hfilter, List.filter_cons]
      simp only [decide_eq_true_eq]
    · intro name
      show Table.get? (release _ rest).1 name = _
      rw [hwaiting]
      by_cases hname : reader = name
      · subst hname
        simp [hreader, Table.get?_insert]
      · have hname' : ¬ name = reader := fun h => hname h.symm
        simp [hname, hname', Table.get?_insert]

/-! ### The queue -/

/-- The added names that a name reads. -/
def inner (g : DependencyGraph) (name : String) : List String :=
  (g.dependenciesOf name).filter (· ∈ g.names)

/-- Whether an order of the added names puts each after the added names it reads. -/
structure IsTopological (g : DependencyGraph) (order : List String) : Prop where
  perm : order.Perm g.names
  before : ∀ {front name back}, order = front ++ name :: back → ∀ d ∈ g.inner name, d ∈ front

/-- The state of the queue: names were taken, each after what it reads; others are queued, and these
are the ones that read taken names only; and each name waits for what it reads of the rest. -/
structure Taking (g : DependencyGraph) (taken queue : List String) (w : Waiting) : Prop where
  nodup : (taken ++ queue).Nodup
  names : ∀ name ∈ taken ++ queue, name ∈ g.names
  waits : ∀ name ∈ g.names,
    Table.get? w name = some (((g.inner name).filter (· ∉ taken)).length : Int)
  ready : ∀ name ∈ g.names, name ∈ taken ++ queue ↔ ∀ d ∈ g.inner name, d ∈ taken
  before : ∀ {front name back}, taken = front ++ name :: back → ∀ d ∈ g.inner name, d ∈ front

theorem filter_not_mem_eq_nil_iff {items taken : List String} :
    items.filter (· ∉ taken) = [] ↔ ∀ d ∈ items, d ∈ taken := by
  simp [List.filter_eq_nil_iff]

theorem get?_map_names (names : List String) (count : String → Int) {name : String}
    (h : name ∈ names) :
    Table.get? (names.map fun name => (name, count name)) name = some (count name) := by
  induction names with
  | nil => cases h
  | cons first rest ih =>
    by_cases hfirst : first = name
    · subst hfirst
      simp [Table.get?]
    · have hrest : name ∈ rest := by
        rcases List.mem_cons.mp h with rfl | h
        · exact absurd rfl hfirst
        · exact h
      simpa [Table.get?, hfirst] using ih hrest

/-- At the start nothing is taken, and the names that read no added name are queued. -/
theorem taking_start (h : g.IsConsistent) :
    Taking g [] (g.names.filter fun name => (Table.get? g.waiting name).getD 0 = 0) g.waiting := by
  have hwaiting : ∀ name ∈ g.names,
      Table.get? g.waiting name = some ((g.inner name).length : Int) :=
    fun name hname => get?_map_names _ _ hname
  refine ⟨?_, ?_, ?_, ?_, ?_⟩
  · exact h.names.filter _
  · exact fun name hname => (List.mem_filter.mp hname).1
  · intro name hname
    have hall : (g.inner name).filter (· ∉ ([] : List String)) = g.inner name := by simp
    rw [hall]
    exact hwaiting name hname
  · intro name hname
    simp only [List.nil_append, List.mem_filter, hname, true_and, hwaiting name hname]
    simp [List.eq_nil_iff_forall_not_mem]
  · intro front name back hnil
    exact absurd hnil (by simp)

/-! ### Taking a name -/

/-- The added names that read a name. -/
def outer (g : DependencyGraph) (name : String) : List String :=
  (g.dependentsOf name).filter (· ∈ g.names)

theorem mem_outer_iff (h : g.IsConsistent) {name reader : String} (hname : name ∈ g.names) :
    reader ∈ g.outer name ↔ reader ∈ g.names ∧ name ∈ g.inner reader := by
  rw [outer, List.mem_filter, h.mem_dependentsOf, inner, List.mem_filter]
  simp only [decide_eq_true_eq]
  exact ⟨fun hr => ⟨hr.2, hr.1.2, hname⟩, fun hr => ⟨⟨hr.1, hr.2.1⟩, hr.1⟩⟩

theorem nodup_outer (h : g.IsConsistent) (name : String) : (g.outer name).Nodup :=
  (h.dependents name).filter _

/-- Once a name is taken its readers wait for one less, and all others for as many as before. -/
theorem length_filter_not_mem_append (h : g.IsConsistent) {taken : List String} {name : String}
    (htaken : name ∉ taken) (reader : String) :
    ((g.inner reader).filter (· ∉ taken ++ [name])).length =
      if name ∈ g.inner reader then ((g.inner reader).filter (· ∉ taken)).length - 1
      else ((g.inner reader).filter (· ∉ taken)).length := by
  have hnodup : ((g.inner reader).filter (· ∉ taken)).Nodup :=
    ((h.dependencies reader).filter _).filter _
  have hsplit : (g.inner reader).filter (· ∉ taken ++ [name]) =
      ((g.inner reader).filter (· ∉ taken)).erase name := by
    rw [hnodup.erase_eq_filter, List.filter_filter]
    refine List.filter_congr fun d _ => ?_
    by_cases hd : d = name
    · simp [hd]
    · simp [hd]
  rw [hsplit, List.length_erase]
  simp [htaken]

theorem length_filter_not_mem_pos {items taken : List String} {name : String} (hname : name ∈ items)
    (htaken : name ∉ taken) : 0 < (items.filter (· ∉ taken)).length :=
  List.length_pos_of_mem (List.mem_filter.mpr ⟨hname, by simpa using htaken⟩)

section

variable (h : g.IsConsistent) {taken queue : List String} {w : Waiting} {name : String}

theorem Taking.not_mem_taken (ht : Taking g taken (name :: queue) w) : name ∉ taken := by
  have hnodup := ht.nodup
  rw [List.nodup_append] at hnodup
  exact fun hm => hnodup.2.2 name hm name (by simp) rfl

include h

/-- What is released by taking a name are its readers of which all that they read is taken now. -/
theorem Taking.mem_release_iff (ht : Taking g taken (name :: queue) w) {reader : String}
    (hr : reader ∈ g.names) : reader ∈ (release w (g.outer name)).2 ↔
      name ∈ g.inner reader ∧ ∀ d ∈ g.inner reader, d ∈ taken ++ [name] := by
  have hname : name ∈ g.names := ht.names name (by simp)
  rw [(release_eq (nodup_outer h name) w).1, List.mem_filter, mem_outer_iff h hname]
  simp only [hr, true_and, decide_eq_true_eq, ht.waits reader hr, Option.getD_some]
  refine and_congr_right fun hn => ?_
  rw [← filter_not_mem_eq_nil_iff, ← List.length_eq_zero_iff,
    length_filter_not_mem_append h ht.not_mem_taken, if_pos hn]
  have hpos := length_filter_not_mem_pos hn ht.not_mem_taken
  omega

/-- What is released is new. -/
theorem Taking.of_mem_release (ht : Taking g taken (name :: queue) w) {reader : String}
    (hm : reader ∈ (release w (g.outer name)).2) :
    reader ∈ g.names ∧ reader ∉ taken ++ name :: queue := by
  have hname : name ∈ g.names := ht.names name (by simp)
  have hr : reader ∈ g.names := by
    rw [(release_eq (nodup_outer h name) w).1] at hm
    exact ((mem_outer_iff h hname).mp (List.mem_filter.mp hm).1).1
  refine ⟨hr, ?_⟩
  rw [ht.ready reader hr]
  exact fun hall => ht.not_mem_taken (hall name ((ht.mem_release_iff h hr).mp hm).1)

theorem Taking.waits_release (ht : Taking g taken (name :: queue) w) {other : String}
    (hother : other ∈ g.names) : Table.get? (release w (g.outer name)).1 other =
      some (((g.inner other).filter (· ∉ taken ++ [name])).length : Int) := by
  have hname : name ∈ g.names := ht.names name (by simp)
  rw [(release_eq (nodup_outer h name) w).2, length_filter_not_mem_append h ht.not_mem_taken]
  simp only [mem_outer_iff h hname, hother, true_and, ht.waits other hother, Option.getD_some]
  split
  · next hn =>
    have hpos := length_filter_not_mem_pos hn ht.not_mem_taken
    exact congrArg some (by omega)
  · rfl

theorem Taking.ready_release (ht : Taking g taken (name :: queue) w) {other : String}
    (hother : other ∈ g.names) :
    other ∈ (taken ++ [name]) ++ (queue ++ (release w (g.outer name)).2) ↔
      ∀ d ∈ g.inner other, d ∈ taken ++ [name] := by
  have hold := ht.ready other hother
  rw [← List.append_assoc, List.mem_append (s := taken ++ [name] ++ queue),
    ht.mem_release_iff h hother]
  by_cases hn : name ∈ g.inner other
  · constructor
    · rintro (hm | ⟨-, hall⟩)
      · intro d hd
        exact List.mem_append_left _ (hold.mp (by grind) d hd)
      · exact hall
    · exact fun hall => .inr ⟨hn, hall⟩
  · -- a name that does not read this one is ready if it was before
    have hsame : (∀ d ∈ g.inner other, d ∈ taken ++ [name]) ↔ ∀ d ∈ g.inner other, d ∈ taken := by
      constructor
      · intro hall d hd
        rcases List.mem_append.mp (hall d hd) with hd' | hd'
        · exact hd'
        · rw [List.mem_singleton] at hd'
          exact absurd (hd' ▸ hd) hn
      · exact fun hall d hd => List.mem_append_left _ (hall d hd)
    rw [hsame, ← hold]
    simp [hn]

/-- Taking one name keeps the state of the queue. -/
theorem Taking.step (ht : Taking g taken (name :: queue) w) :
    Taking g (taken ++ [name]) (queue ++ (release w (g.outer name)).2)
      (release w (g.outer name)).1 := by
  have hname : name ∈ g.names := ht.names name (by simp)
  refine ⟨?_, ?_, fun other hother => ht.waits_release h hother,
    fun other hother => ht.ready_release h hother, ?_⟩
  · rw [List.append_assoc, List.singleton_append, ← List.cons_append, ← List.append_assoc,
      List.nodup_append]
    refine ⟨ht.nodup, ?_, ?_⟩
    · rw [(release_eq (nodup_outer h name) w).1]
      exact (nodup_outer h name).filter _
    · rintro a ha b hb rfl
      exact (ht.of_mem_release h hb).2 ha
  · intro other hm
    rcases List.mem_append.mp hm with hm | hm
    · exact ht.names other (by grind)
    · rcases List.mem_append.mp hm with hm | hm
      · exact ht.names other (by grind)
      · exact (ht.of_mem_release h hm).1
  · intro front other back heq d hd
    -- the last of the names taken is the one at hand, which was ready in the queue
    rcases List.eq_nil_or_concat back with rfl | ⟨back, last, rfl⟩
    · obtain ⟨hfront, hlast⟩ := List.append_inj' heq rfl
      obtain rfl : name = other := by simpa using hlast
      rw [← hfront]
      exact (ht.ready name hname).mp (by simp) d hd
    · have heq' : taken ++ [name] = (front ++ other :: back) ++ [last] := by simpa using heq
      exact ht.before (List.append_inj' heq' rfl).1 d hd

end

/-- Taking from the queue for long enough ends with an empty queue. -/
theorem Taking.run (h : g.IsConsistent) (bound : Nat) {taken queue : List String} {w : Waiting}
    (ht : Taking g taken queue w) (hbound : g.names.length ≤ taken.length + bound) :
    ∃ w', Taking g (taken ++ takeFrom g bound queue w) [] w' := by
  induction bound generalizing taken queue w with
  | zero =>
    -- all names are taken, so none is queued
    have hsub : (taken ++ queue).length ≤ g.names.length :=
      (List.subperm_of_subset ht.nodup fun name hname => ht.names name hname).length_le
    have hqueue : queue = [] := by
      rw [List.length_append] at hsub
      exact List.length_eq_zero_iff.mp (by omega)
    subst hqueue
    exact ⟨w, by simpa [takeFrom] using ht⟩
  | succ bound ih =>
    cases queue with
    | nil => exact ⟨w, by simpa [takeFrom] using ht⟩
    | cons name queue =>
      obtain ⟨w', hw'⟩ := ih (ht.step h) (by
        rw [List.length_append, List.length_singleton]
        omega)
      refine ⟨w', ?_⟩
      rw [takeFrom]
      simpa [outer] using hw'

/-- All names whose dependencies can be taken are taken. -/
theorem taking_released (h : g.IsConsistent) : ∃ w, Taking g g.released [] w := by
  obtain ⟨w, hw⟩ := (taking_start h).run h g.names.length (by simp)
  exact ⟨w, by simpa [released] using hw⟩

/-- Only added names are released, and each once. -/
theorem subperm_released (h : g.IsConsistent) : g.released.Subperm g.names := by
  obtain ⟨w, ht⟩ := taking_released h
  have hnodup := ht.nodup
  rw [List.append_nil] at hnodup
  exact List.subperm_of_subset hnodup fun name hname => ht.names name (by simpa using hname)

/-- As many names are released as were added just if all of them are. -/
theorem length_released_iff (h : g.IsConsistent) :
    g.released.length = g.names.length ↔ ∀ name ∈ g.names, name ∈ g.released := by
  constructor
  · intro hlength name hname
    have hperm := (subperm_released h).perm_of_length_le (Nat.le_of_eq hlength.symm)
    exact hperm.mem_iff.mpr hname
  · intro hall
    exact Nat.le_antisymm (subperm_released h).length_le
      (List.subperm_of_subset h.names hall).length_le

/-! ### Correctness -/

/-- There is an order if as many names are released as were added, and it is that of the release. -/
theorem order_eq_ok_iff {order : List String} :
    g.order = .ok order ↔ order = g.released ∧ g.released.length = g.names.length := by
  rw [DependencyGraph.order]
  by_cases hlength : g.released.length = g.names.length
  · rw [if_pos hlength]
    constructor
    · intro h
      exact ⟨(Except.ok.inj h).symm, hlength⟩
    · rintro ⟨rfl, -⟩
      rfl
  · rw [if_neg hlength]
    constructor
    · rintro ⟨⟩
    · rintro ⟨-, h⟩
      exact absurd h hlength

/-- **The order is topological**: what the queue gives has every added name once, after the added
names it reads. -/
theorem isTopological_of_order (h : g.IsConsistent) {order : List String}
    (ho : g.order = .ok order) : g.IsTopological order := by
  obtain ⟨w, ht⟩ := taking_released h
  obtain ⟨rfl, hlength⟩ := order_eq_ok_iff.mp ho
  exact ⟨(subperm_released h).perm_of_length_le (Nat.le_of_eq hlength.symm), ht.before⟩

/-- If every added name is released, the released names are the order. -/
theorem order_of_forall_released (h : g.IsConsistent) (hall : ∀ name ∈ g.names, name ∈ g.released) :
    g.order = .ok g.released :=
  order_eq_ok_iff.mpr ⟨rfl, (length_released_iff h).mpr hall⟩

/-- **The queue is complete**: if there is a topological order, the queue gives one. -/
theorem exists_order_of_isTopological (h : g.IsConsistent) {order : List String}
    (ho : g.IsTopological order) : ∃ order', g.order = .ok order' := by
  obtain ⟨w, ht⟩ := taking_released h
  refine ⟨g.released, order_of_forall_released h ?_⟩
  by_contra hnot
  push Not at hnot
  obtain ⟨missed, hmissed, hout⟩ := hnot
  -- the first name of the order that is not taken reads taken names only
  obtain ⟨front, name, back, horder, hname, hfront⟩ :
      ∃ front name back, order = front ++ name :: back ∧ name ∉ g.released ∧
        ∀ d ∈ front, d ∈ g.released := by
    rcases hfind : order.find? (· ∉ g.released) with - | name
    · have := List.find?_eq_none.mp hfind missed (ho.perm.mem_iff.mpr hmissed)
      exact absurd hout (by simpa using this)
    · obtain ⟨hname, front, back, horder, hfront⟩ := List.find?_eq_some_iff_append.mp hfind
      exact ⟨front, name, back, horder, by simpa using hname,
        fun d hd => by simpa using hfront d hd⟩
  have hmem : name ∈ g.names := ho.perm.mem_iff.mp (by simp [horder])
  have := (ht.ready name hmem).mpr fun d hd => hfront d (ho.before horder d hd)
  exact hname (by simpa using this)

end DependencyGraph

end Formulary
