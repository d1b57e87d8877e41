import Formulary.Proofs.Session.Mirror
import Formulary.Proofs.Table
import Formulary.Session.Bindings
import Mathlib

/-!
# Bindings as a stack of frames

Bindings keep one memory and, for as long as a scope is open, the memory from before. They answer
like a stack of frames: a scope pushes a copy of the top frame and pops it on exit, a write
overwrites names in the top frame, and clearing empties it (`reading_run_eq`). So they do after
every step, inside of scopes and callbacks too, whichever way these end.

What a mapping writes is told by its leaves in document order, with one reservation. A leaf whose
key was written before in the same mapping only changes what is written there: it does not move to
its own place (`collected`). This shows where different keys mean one name and one of them comes
again (`reading_run_mixedCase_ne`).

The relation of the two is that the top frame is the frame of the memory; what is below is fixed for
the time of a scope, and leaving the scope comes back to it.
-/

namespace Formulary

/-! ### Frames -/

/-- What names stand for, and the names that stand for something in the order in which they came
in. -/
structure Frame where
  value? : String → Option Value
  names : List String

namespace Frame

/-- The frame without names. -/
def empty : Frame := ⟨fun _ => none, []⟩

/-- The frame with the value of a name overwritten. -/
def write (f : Frame) (name : String) (v : Value) : Frame where
  value? other := if name = other then some v else f.value? other
  names := if name ∈ f.names then f.names else f.names ++ [name]

/-- The frame with the values of several names overwritten, in order. -/
def writeAll (f : Frame) (entries : List (String × Value)) : Frame :=
  entries.foldl (fun f entry => f.write entry.1 entry.2) f

/-- The names with their values. -/
def entries (f : Frame) : Table String Value :=
  f.names.filterMap fun name => (f.value? name).map (name, ·)

/-- The frame that a memory is. -/
def ofMemory (memory : Memory) : Frame := ⟨Table.get? memory, Table.keys memory⟩

theorem ofMemory_insert (memory : Memory) (name : String) (v : Value) :
    ofMemory (Table.insert memory name v) = (ofMemory memory).write name v := by
  rw [ofMemory, ofMemory, write, Table.keys_insert]
  congr
  funext other
  rw [Table.get?_insert]
  by_cases h : name = other <;> simp [h]

theorem ofMemory_insertAll (memory : Memory) (entries : List (String × Value)) :
    ofMemory (Table.insertAll memory entries) = (ofMemory memory).writeAll entries := by
  induction entries generalizing memory with
  | nil => rfl
  | cons entry rest ih => rw [Table.insertAll_cons, ih, ofMemory_insert]; rfl

theorem entries_ofMemory {memory : Memory} (h : (Table.keys memory).Nodup) :
    (ofMemory memory).entries = memory := by
  rw [entries, ofMemory, Table.keys, List.filterMap_map]
  calc memory.filterMap _ = memory.filterMap some :=
        List.filterMap_congr fun entry hentry => by
          show (Table.get? memory entry.1).map _ = _
          rw [Table.get?_of_mem h hentry]
          rfl
    _ = memory := List.filterMap_some

end Frame

/-! ### Readings -/

/-- What can be read: the value of each key, which keys have one, and the names. -/
structure Reading where
  get? : Value → Option Value
  has : Value → Bool
  names : List String

/-- What can be read from bindings. -/
def Bindings.reading (b : Bindings) : Reading := ⟨b.get?, b.has, b.names⟩

/-- What can be read from a frame by keys that stand for names. -/
def Frame.reading (name : Value → String) (f : Frame) : Reading where
  get? key := f.value? (name key)
  has key := Bindings.canBeKey key && (f.value? (name key)).isSome
  names := f.names

/-! ### Stacks -/

/-- Frames, of which the top one is read and written. -/
structure FrameStack where
  top : Frame
  below : List Frame

namespace FrameStack

/-- One frame without names. -/
def single : FrameStack := ⟨.empty, []⟩

/-- The stack with a copy of its top frame on top. -/
def push (s : FrameStack) : FrameStack := ⟨s.top, s.top :: s.below⟩

/-- The stack without its top frame; the last frame stays. -/
def pop (s : FrameStack) : FrameStack :=
  match s.below with
  | [] => s
  | frame :: rest => ⟨frame, rest⟩

/-- The stack with names overwritten in its top frame. -/
def store (s : FrameStack) (entries : List (String × Value)) : FrameStack :=
  { s with top := s.top.writeAll entries }

section

variable (name : Value → String) (listed : Mapping → Mapping)

/-- What a writing writes: one name, or the names of what a mapping lists. -/
def entriesOf (w : Writing) : Except Error (List (String × Value)) :=
  match w.value, w.key.entries? with
  | some v, _ => pure [(name w.key, v)]
  | none, some data => pure ((listed data).map fun entry => (name entry.1, entry.2))
  | none, none => throw (.notMapping w.key.shown)

/-- What a command does to a stack. -/
def act : BindingsSession.Command → FrameStack → Except Failure Value × FrameStack
  | .store w, s =>
    match entriesOf name listed w with
    | .ok entries => (.ok (.bool true), s.store entries)
    | .error e => (.error ⟨e, none⟩, s)
  | .get key default, s => (.ok (((s.top.reading name).get? key).getD default), s)
  | .contains key, s => (.ok (.bool ((s.top.reading name).has key)), s)
  | .normalize key, s => (.ok (.text (name key)), s)
  | .names, s => (.ok (.list (s.top.names.map .text)), s)
  | .size, s => (.ok (.int s.top.names.length), s)
  | .isEmpty, s => (.ok (.bool s.top.names.isEmpty), s)
  | .clear, s => (.ok .none, { s with top := .empty })
  | .shown, s => (.ok (.text (application "BindingStore"
      [(Value.map (Mapping.ofNames s.top.entries)).shown])), s)

/-- Sessions on a stack of frames, given what a key names and what a mapping lists. -/
def session : Session FrameStack Frame BindingsSession.Command Writing where
  act := act name listed
  enter w s := ((entriesOf name listed w).map s.push.store).mapError (⟨·, none⟩)
  leave _ _ inside := inside.pop
  seen _ s := s.top
  seenAt _ s := s.top

end

/-! ### What a mapping lists -/

/-- The leaves of a mapping in document order under their written paths, or its entries if mappings
are promised to be flat. -/
def documentOrder (promised : Bool) (data : Mapping) : Mapping :=
  if promised then data else data.leaves.map fun leaf => (Path.toKey leaf.1, leaf.2)

/-- The same with one entry for each written path: in the place of its first leaf, with the value of
its last one. -/
def collected (promised : Bool) (data : Mapping) : Mapping :=
  if promised then data else Table.onePerKey (documentOrder promised data)

theorem collected_eq (promised : Bool) (data : Mapping) :
    collected promised data = data.flattenUnless promised := by
  rw [collected, Mapping.flattenUnless]
  split
  · rfl
  · next h => rw [Mapping.flatten, Table.ofPairs_eq_onePerKey, documentOrder, if_neg h]

end FrameStack

/-! ### Refinement -/

namespace BindingsSession

/-- The sessions on stacks that sessions on bindings answer like: keys stand for names as they do
there, and mappings list one entry for each written path. -/
def frameSession (caseSensitive ignoreNested : Bool) :
    Session FrameStack Frame Command Writing :=
  FrameStack.session (Bindings.empty caseSensitive ignoreNested).normalize
    (FrameStack.collected ignoreNested)

variable {caseSensitive ignoreNested : Bool}

/-- Whether bindings are what is on top of some frames. -/
structure IsOnTop (caseSensitive ignoreNested : Bool) (below : List Frame) (b : Bindings)
    (s : FrameStack) : Prop where
  caseSensitive : b.caseSensitive = caseSensitive
  ignoreNested : b.ignoreNested = ignoreNested
  nodup : (Table.keys b.memory).Nodup
  stack : s = ⟨.ofMemory b.memory, below⟩

namespace IsOnTop

variable {below : List Frame} {b : Bindings} {s : FrameStack}

theorem normalize (h : IsOnTop caseSensitive ignoreNested below b s) :
    b.normalize = (Bindings.empty caseSensitive ignoreNested).normalize := by
  funext key
  rw [Bindings.normalize, Bindings.normalize, h.caseSensitive]
  rfl

/-- What is on top is read alike. -/
theorem reading (h : IsOnTop caseSensitive ignoreNested below b s) :
    b.reading = s.top.reading (Bindings.empty caseSensitive ignoreNested).normalize := by
  rw [← h.normalize, h.stack]
  rfl

/-- A write overwrites names in the top frame. -/
theorem insertAll (h : IsOnTop caseSensitive ignoreNested below b s)
    (entries : List (String × Value)) :
    IsOnTop caseSensitive ignoreNested below
      { b with memory := Table.insertAll b.memory entries } (s.store entries) where
  caseSensitive := h.caseSensitive
  ignoreNested := h.ignoreNested
  nodup := Table.nodup_keys_insertAll h.nodup entries
  stack := by
    rw [h.stack, Frame.ofMemory_insertAll]
    rfl

/-- Storing does to the top frame what a writing writes, or fails in the same way. -/
theorem store (h : IsOnTop caseSensitive ignoreNested below b s) (w : Writing) :
    (∃ e, b.store w.key w.value = .error e ∧
      FrameStack.entriesOf (Bindings.empty caseSensitive ignoreNested).normalize
        (FrameStack.collected ignoreNested) w = .error e) ∨
    ∃ b' entries, b.store w.key w.value = .ok b' ∧
      FrameStack.entriesOf (Bindings.empty caseSensitive ignoreNested).normalize
        (FrameStack.collected ignoreNested) w = .ok entries ∧
      IsOnTop caseSensitive ignoreNested below b' (s.store entries) := by
  rw [Bindings.store.eq_def, FrameStack.entriesOf.eq_def, ← h.normalize]
  rcases w.value with - | v
  · rcases w.key.entries? with - | data
    · exact .inl ⟨_, rfl, rfl⟩
    · have hlisted : FrameStack.collected ignoreNested data =
          Mapping.flattenUnless b.ignoreNested data := by
        rw [FrameStack.collected_eq, h.ignoreNested]
      refine .inr ⟨_, _, rfl, rfl, ?_⟩
      rw [hlisted]
      exact h.insertAll (b.entriesOf data)
  · exact .inr ⟨_, _, rfl, rfl, h.insertAll [(b.normalize w.key, v)]⟩

/-- Every command has the same outcome on a stack, and does to its top frame what it does to the
memory. -/
theorem act (h : IsOnTop caseSensitive ignoreNested below b s) (command : Command) :
    ((frameSession caseSensitive ignoreNested).act command s).1 = (session.act command b).1 ∧
      IsOnTop caseSensitive ignoreNested below (session.act command b).2
        ((frameSession caseSensitive ignoreNested).act command s).2 := by
  have hreading := h.reading
  cases command with
  | store w =>
    rcases h.store w with ⟨e, hb, hs⟩ | ⟨b', entries, hb, hs, hstored⟩
    · simp only [session, frameSession, FrameStack.session, BindingsSession.act, FrameStack.act, hb,
        hs]
      exact ⟨trivial, h⟩
    · simp only [session, frameSession, FrameStack.session, BindingsSession.act, FrameStack.act, hb,
        hs]
      exact ⟨trivial, hstored⟩
  | get key default =>
    refine ⟨?_, h⟩
    show Except.ok _ = Except.ok ((b.reading.get? key).getD default)
    rw [hreading]
  | contains key =>
    refine ⟨?_, h⟩
    show Except.ok _ = Except.ok (Value.bool (b.reading.has key))
    rw [hreading]
  | normalize key =>
    refine ⟨?_, h⟩
    show Except.ok _ = Except.ok (Value.text (b.normalize key))
    rw [h.normalize]
  | names =>
    refine ⟨?_, h⟩
    show Except.ok _ = Except.ok (Value.list (b.reading.names.map .text))
    rw [hreading]
    rfl
  | size =>
    refine ⟨?_, h⟩
    rw [h.stack]
    show Except.ok (Value.int (Table.keys b.memory).length) = _
    rw [Table.keys, List.length_map]
    rfl
  | isEmpty =>
    refine ⟨?_, h⟩
    rw [h.stack]
    show Except.ok (Value.bool (Table.keys b.memory).isEmpty) = _
    rw [Table.keys, List.isEmpty_map]
    rfl
  | clear => exact ⟨rfl, h.caseSensitive, h.ignoreNested, List.nodup_nil, by rw [h.stack]; rfl⟩
  | shown =>
    refine ⟨?_, h⟩
    rw [h.stack]
    show Except.ok (Value.text (application "BindingStore"
      [(Value.map (Mapping.ofNames (Frame.ofMemory b.memory).entries)).shown])) = _
    rw [Frame.entries_ofMemory h.nodup]
    rfl

/-- A scope begins with the frame from before on top and below. -/
theorem push (h : IsOnTop caseSensitive ignoreNested below b s) :
    IsOnTop caseSensitive ignoreNested (.ofMemory b.memory :: below) b s.push where
  caseSensitive := h.caseSensitive
  ignoreNested := h.ignoreNested
  nodup := h.nodup
  stack := by
    rw [h.stack]
    rfl

/-- A scope that ends leaves the memory and the frames as they were before it. -/
theorem leave (h : IsOnTop caseSensitive ignoreNested below b s) (w : Writing) {b' : Bindings}
    {s' : FrameStack}
    (h' : IsOnTop caseSensitive ignoreNested (.ofMemory b.memory :: below) b' s') :
    IsOnTop caseSensitive ignoreNested below (session.leave w b b')
      ((frameSession caseSensitive ignoreNested).leave w s s') where
  caseSensitive := h'.caseSensitive
  ignoreNested := h'.ignoreNested
  nodup := h.nodup
  stack := by
    rw [h'.stack]
    rfl

end IsOnTop

/-- **Bindings refine a stack of frames**: every command and every scope does to the memory what it
does to the top frame. -/
theorem refines_frameSession (caseSensitive ignoreNested : Bool) :
    Session.Refines (IsOnTop caseSensitive ignoreNested) (fun _ => True)
      (fun memory => (⟨caseSensitive, ignoreNested, memory⟩ : Bindings).reading)
      (Frame.reading (Bindings.empty caseSensitive ignoreNested).normalize)
      session (frameSession caseSensitive ignoreNested) where
  act h _ := h.act _
  enter := by
    intro w below b s h
    rcases h.push.store w with ⟨e, hb, hs⟩ | ⟨b', entries, hb, hs, hstored⟩
    · refine .inl ⟨⟨e, none⟩, ?_, ?_⟩
      · simp only [session, Bindings.enter, hb]
        rfl
      · simp only [frameSession, FrameStack.session, hs]
        rfl
    · refine .inr ⟨b', _, _, ?_, ?_, hstored, fun after after' => h.leave w⟩
      · simp only [session, Bindings.enter, hb]
        rfl
      · simp only [frameSession, FrameStack.session, hs]
        rfl
  seen command below b s h := by
    show s.top.reading _ = _
    rw [← h.reading, ← h.caseSensitive, ← h.ignoreNested]
    rfl
  seenAt w below b s h := by
    show s.top.reading _ = _
    rw [← h.reading, ← h.caseSensitive, ← h.ignoreNested]
    rfl

/-- **Bindings answer like a stack of frames**: in every session all outcomes and all that can be
read after each step are those of the stack, at every point the reading is that of the top frame,
and the names there are those that have a value, each once. -/
theorem reading_run_eq (caseSensitive ignoreNested : Bool) (steps : List (Step Command Writing)) :
    Record.allMap (fun memory => (⟨caseSensitive, ignoreNested, memory⟩ : Bindings).reading)
        (session.run steps (.empty caseSensitive ignoreNested)) =
      Record.allMap (Frame.reading (Bindings.empty caseSensitive ignoreNested).normalize)
        ((frameSession caseSensitive ignoreNested).run steps .single) ∧
    List.Forall₂ (fun b s =>
        b.reading = s.top.reading (Bindings.empty caseSensitive ignoreNested).normalize ∧
        b.names.Nodup ∧ ∀ z, z ∈ b.names ↔ (s.top.value? z).isSome = true)
      (session.allStates steps (.empty caseSensitive ignoreNested))
      ((frameSession caseSensitive ignoreNested).allStates steps .single) := by
  have hrefines := refines_frameSession caseSensitive ignoreNested
  have hstart : IsOnTop caseSensitive ignoreNested [] (.empty caseSensitive ignoreNested) .single :=
    ⟨rfl, rfl, List.nodup_nil, rfl⟩
  refine ⟨(hrefines.run (fun _ _ => trivial) hstart).symm,
    (hrefines.forall₂_allStates (fun _ _ => trivial) hstart).imp ?_⟩
  rintro b s ⟨below, h⟩
  refine ⟨h.reading, h.nodup, fun z => ?_⟩
  rw [h.stack]
  show z ∈ Table.keys b.memory ↔ (Table.get? b.memory z).isSome = true
  rcases hz : Table.get? b.memory z with - | v
  · simpa using Table.get?_eq_none_iff.mp hz
  · simpa using Table.mem_keys_of_get? hz

/-- A mapping that writes `A.b`, then `a.b`, and then `A.b` again as a nested leaf. -/
def mixedCase : Value :=
  .map [(.text "A.b", .int 1), (.text "a.b", .int 2), (.text "A", .map [(.text "b", .int 3)])]

/-- In document order the third leaf is the last one of its name. But it only changes what is
written in the place of the first one, so the second one is the last write. -/
theorem reading_run_mixedCase_ne :
    Record.allMap (fun memory => (⟨false, false, memory⟩ : Bindings).reading)
        (session.run [.act false (.store ⟨mixedCase, none⟩), .act false (.get (.text "a.b") .none)]
          (.empty false false)) ≠
      Record.allMap (Frame.reading (Bindings.empty false false).normalize)
        ((FrameStack.session (Bindings.empty false false).normalize
          (FrameStack.documentOrder false)).run
            [.act false (.store ⟨mixedCase, none⟩), .act false (.get (.text "a.b") .none)]
            .single) := by
  intro h
  have houtcomes := congrArg (List.map Record.outcome) h
  rw [Record.map_outcome_allMap, Record.map_outcome_allMap] at houtcomes
  have hbindings : (session.run [.act false (.store ⟨mixedCase, none⟩),
      .act false (.get (.text "a.b") .none)] (.empty false false)).map Record.outcome =
        [.ok (.bool true), .ok (.int 2)] := by
    cbv
  have hframes : ((FrameStack.session (Bindings.empty false false).normalize
      (FrameStack.documentOrder false)).run [.act false (.store ⟨mixedCase, none⟩),
        .act false (.get (.text "a.b") .none)] .single).map Record.outcome =
        [.ok (.bool true), .ok (.int 3)] := by
    cbv
  rw [hbindings, hframes] at houtcomes
  simp at houtcomes

end BindingsSession

end Formulary
