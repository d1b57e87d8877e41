import Formulary.Proofs.Cache
import Formulary.Proofs.Session.Mirror
import Formulary.Session.Cache

/-!
# A cache as its history tells it

A session on a cache that also keeps a list of what happened (`CacheSession.recording`) does the
same as one that does not. At every point, inside of blocks too and however blocks end, the list
tells the cache (`CacheSession.tells_recording`):

* new entries are taken just if the switch was last turned on and no block that suspends the cache
  is open (`History.Takes`),
* a text is known with a value just if its last write wrote this value and no removal since then
  selected it (`History.Remembers`), where seeding writes and putting writes while new entries are
  taken. A removal that fails is none.

One more event changes what the list tells about a text only by writing or removing it
(`History.remembers_snoc`). The number of open blocks is what surrounds a step, so leaving a block
goes back to the number outside, as the cache goes back to its flag from there.
-/

namespace Formulary

namespace CacheSession

/-! ### Histories -/

/-- What can happen to a cache and to the switch. -/
inductive Event
  | seeded (text : String) (value : Value)
  | put (text : String) (value : Value)
  | removed (p : CachePattern)
  | turned (on : Bool)
  | suspended
  | resumed

/-- What happened, from first to last. -/
abbrev History := List Event

namespace Event

/-- How the switch is turned. -/
def switch? : Event → Option Bool
  | .turned on => some on
  | _ => none

/-- Whether a block begins that suspends the cache. -/
def isSuspended : Event → Bool
  | .suspended => true
  | _ => false

/-- Whether such a block is left. -/
def isResumed : Event → Bool
  | .resumed => true
  | _ => false

/-- Whether texts have no part in what happens. -/
def isIdle : Event → Bool
  | .turned _ | .suspended | .resumed => true
  | .seeded .. | .put .. | .removed _ => false

end Event

namespace History

/-- How the switch was turned last. -/
def switch? (past : History) : Option Bool := (past.filterMap Event.switch?).getLast?

/-- Whether a number of blocks that suspend the cache are open. -/
def HasOpen (past : History) (depth : Nat) : Prop :=
  past.countP Event.isSuspended = past.countP Event.isResumed + depth

/-- Whether new entries are taken: the switch is on, and no block is open. -/
def Takes (past : History) : Prop := past.switch? = some true ∧ past.HasOpen 0

/-- Whether an event that comes after a history writes a text with a value. -/
def Writes (past : History) (e : Event) (text : String) (v : Value) : Prop :=
  e = .seeded text v ∨ e = .put text v ∧ past.Takes

/-- Whether an event that comes after a history writes a text or selects it for removal. -/
def Touches (past : History) (e : Event) (text : String) : Prop :=
  (∃ v, past.Writes e text v) ∨ ∃ p, e = .removed p ∧ p.takes text = true

/-- Whether a text was written with a value and has not been touched since. -/
def Remembers (past : History) (text : String) (v : Value) : Prop :=
  ∃ before e after, past = before ++ e :: after ∧ Writes before e text v ∧
    ∀ middle later rest, after = middle ++ later :: rest →
      ¬ Touches (before ++ e :: middle) later text

variable {past : History} {e : Event} {text : String} {v : Value}

/-- Where an event stands in a history with one more event: it is this one, or it stands before. -/
theorem snoc_eq_iff {before after : History} {e' : Event} :
    past ++ [e] = before ++ e' :: after ↔
      (past = before ∧ e = e' ∧ after = []) ∨ ∃ rest, after = rest ++ [e] ∧
        past = before ++ e' :: rest := by
  constructor
  · intro h
    rcases List.eq_nil_or_concat after with rfl | ⟨rest, last, rfl⟩
    · obtain ⟨hpast, he⟩ := List.append_inj' h rfl
      exact .inl ⟨hpast, List.singleton_inj.mp he, rfl⟩
    · rw [List.concat_eq_append, ← List.cons_append, ← List.append_assoc] at h
      obtain ⟨hpast, he⟩ := List.append_inj' h rfl
      exact .inr ⟨rest, by rw [List.concat_eq_append, he], hpast⟩
  · rintro (⟨rfl, rfl, rfl⟩ | ⟨rest, rfl, rfl⟩)
    · rfl
    · rw [List.append_assoc, List.cons_append]

/-- **One more event**: it writes the text, or it does not touch it and leaves what was written. -/
theorem remembers_snoc : Remembers (past ++ [e]) text v ↔
    Writes past e text v ∨ ¬ Touches past e text ∧ Remembers past text v := by
  constructor
  · rintro ⟨before, e', after, hpast, hwrites, hafter⟩
    rcases snoc_eq_iff.mp hpast with ⟨rfl, rfl, rfl⟩ | ⟨rest, rfl, rfl⟩
    · exact .inl hwrites
    · refine .inr ⟨hafter rest e [] rfl, before, e', rest, rfl, hwrites, ?_⟩
      rintro middle later rest rfl
      exact hafter middle later (rest ++ [e]) (by rw [List.append_assoc, List.cons_append])
  · rintro (hwrites | ⟨huntouched, before, e', after, rfl, hwrites, hafter⟩)
    · exact ⟨past, e, [], rfl, hwrites, fun middle later rest h => by simp at h⟩
    · refine ⟨before, e', after ++ [e], by rw [List.append_assoc, List.cons_append], hwrites, ?_⟩
      intro middle later rest h
      rcases snoc_eq_iff.mp h with ⟨rfl, rfl, rfl⟩ | ⟨rest, rfl, hafter'⟩
      · exact huntouched
      · exact hafter middle later rest hafter'

theorem not_remembers_nil : ¬ Remembers [] text v := by
  rintro ⟨before, e, after, h, -⟩
  simp at h

/-- An event that neither writes nor removes changes nothing. -/
theorem remembers_snoc_of_idle (h : e.isIdle = true) :
    Remembers (past ++ [e]) text v ↔ Remembers past text v := by
  have hwrites : ∀ v, ¬ Writes past e text v := by
    rintro v (rfl | ⟨rfl, -⟩) <;> cases h
  have htouches : ¬ Touches past e text := by
    rintro (⟨v, hv⟩ | ⟨p, rfl, -⟩)
    · exact hwrites v hv
    · cases h
  rw [remembers_snoc]
  exact ⟨fun h => (h.resolve_left (hwrites v)).2, fun h => .inr ⟨htouches, h⟩⟩

/-- An event that writes one text, if it writes. -/
theorem remembers_snoc_of_writes {written : String} {value : Value} (writes : Prop)
    (hwrites : ∀ text v, Writes past e text v ↔ writes ∧ written = text ∧ value = v)
    (hremoved : ∀ p, e ≠ .removed p) :
    Remembers (past ++ [e]) text v ↔
      (writes ∧ written = text) ∧ value = v ∨ ¬ (writes ∧ written = text) ∧ Remembers past text v := by
  have htouches : Touches past e text ↔ writes ∧ written = text := by
    constructor
    · rintro (⟨v, hv⟩ | ⟨p, rfl, -⟩)
      · obtain ⟨hw, htext, -⟩ := (hwrites text v).mp hv
        exact ⟨hw, htext⟩
      · exact absurd rfl (hremoved p)
    · rintro ⟨hw, htext⟩
      exact .inl ⟨value, (hwrites text value).mpr ⟨hw, htext, rfl⟩⟩
  rw [remembers_snoc, hwrites, htouches, and_assoc]

theorem remembers_snoc_put {written : String} {value : Value} :
    Remembers (past ++ [.put written value]) text v ↔ (past.Takes ∧ written = text) ∧ value = v ∨
      ¬ (past.Takes ∧ written = text) ∧ Remembers past text v :=
  remembers_snoc_of_writes past.Takes
    (fun text v => by simp [Writes, and_comm]) fun _ h => nomatch h

theorem remembers_snoc_seeded {written : String} {value : Value} :
    Remembers (past ++ [.seeded written value]) text v ↔
      written = text ∧ value = v ∨ written ≠ text ∧ Remembers past text v := by
  have hwrites : ∀ text v, Writes past (.seeded written value) text v ↔
      True ∧ written = text ∧ value = v := fun text v => by simp [Writes]
  rw [remembers_snoc_of_writes True hwrites fun _ h => nomatch h]
  simp only [true_and, ne_eq]

theorem remembers_snoc_removed {p : CachePattern} : Remembers (past ++ [.removed p]) text v ↔
    p.takes text = false ∧ Remembers past text v := by
  have hwrites : ∀ v, ¬ Writes past (.removed p) text v := by
    rintro v (h | ⟨h, -⟩) <;> cases h
  have htouches : Touches past (.removed p) text ↔ p.takes text = true := by
    constructor
    · rintro (⟨v, hv⟩ | ⟨p', hp, htakes⟩)
      · exact absurd hv (hwrites v)
      · cases hp
        exact htakes
    · exact fun h => .inr ⟨p, rfl, h⟩
  rw [remembers_snoc, htouches, Bool.not_eq_true]
  exact ⟨fun h => h.resolve_left (hwrites v), .inr⟩

/-! ### Switch and blocks -/

theorem switch?_snoc : switch? (past ++ [e]) = e.switch?.or (switch? past) := by
  rw [switch?, switch?, List.filterMap_append, List.getLast?_append]
  cases h : e.switch? <;> simp [h]

theorem hasOpen_snoc_suspended {depth : Nat} (h : past.HasOpen depth) :
    HasOpen (past ++ [Event.suspended]) (depth + 1) := by
  have hone : [Event.suspended].countP Event.isSuspended = 1 := rfl
  have hnone : [Event.suspended].countP Event.isResumed = 0 := rfl
  rw [HasOpen] at h ⊢
  rw [List.countP_append, List.countP_append, hone, hnone, h]
  omega

theorem hasOpen_snoc_resumed {depth : Nat} (h : past.HasOpen (depth + 1)) :
    HasOpen (past ++ [Event.resumed]) depth := by
  have hnone : [Event.resumed].countP Event.isSuspended = 0 := rfl
  have hone : [Event.resumed].countP Event.isResumed = 1 := rfl
  rw [HasOpen] at h ⊢
  rw [List.countP_append, List.countP_append, hone, hnone, h]
  omega

theorem hasOpen_snoc_of_idle {depth : Nat} (h : past.HasOpen depth)
    (hsuspended : e.isSuspended = false) (hresumed : e.isResumed = false) :
    HasOpen (past ++ [e]) depth := by
  rw [HasOpen] at h ⊢
  simpa [hsuspended, hresumed] using h

end History

/-! ### The session that keeps the history -/

/-- What happens when a command succeeds. -/
def Command.event? : Command → Option Event
  | .put text value => some (.put text value)
  | .invalidate request =>
    match CachePattern.ofRequest request with
    | .ok p => some (.removed p)
    | .error _ => none
  | .turn value => some (.turned value.truthy)
  | .get _ | .contains _ | .size => none

/-- What happens when a command is given: nothing if it fails. -/
def Command.events (command : Command) : Except Failure Value → List Event
  | .ok _ => command.event?.toList
  | .error _ => []

/-- A state, and what happened before it. -/
structure Point where
  state : State
  past : History

/-- Sessions on a cache that keep what happens. -/
def recording : Session Point Seen Command Unit where
  act command x :=
    let (outcome, after) := session.act command x.state
    (outcome, ⟨after, x.past ++ command.events outcome⟩)
  enter opening x := (session.enter opening x.state).map (⟨·, x.past ++ [.suspended]⟩)
  leave opening before inside :=
    ⟨session.leave opening before.state inside.state, inside.past ++ [.resumed]⟩
  seen command x := session.seen command x.state
  seenAt opening x := session.seenAt opening x.state

/-- The state with a seeded cache and a switch, and its history. -/
def Point.seeded (seed : List (String × Value)) (switch : Bool) : Point where
  state := ⟨.ofSeed seed, switch⟩
  past := .turned switch :: seed.map fun entry => .seeded entry.1 entry.2

/-! ### Telling the state -/

/-- Whether a history tells a state that a number of blocks surround. -/
structure IsTold (depth : Nat) (s : State) (x : Point) : Prop where
  state : x.state = s
  switch : x.past.switch? = some s.switch
  opened : x.past.HasOpen depth
  suspended : s.cache.suspended = true ↔ depth ≠ 0
  nodup : s.cache.texts.Nodup
  known : ∀ text v, s.cache.get? text = some v ↔ x.past.Remembers text v

namespace IsTold

variable {depth : Nat} {s : State} {x : Point}

theorem takes_iff (h : IsTold depth s x) : s.cache.enabled s.switch = true ↔ x.past.Takes := by
  -- the history has one number of open blocks only
  have hopen : x.past.HasOpen 0 ↔ depth = 0 := by
    have := h.opened
    rw [History.HasOpen] at this ⊢
    omega
  rw [Cache.enabled, Bool.and_eq_true, History.Takes, h.switch, hopen, Option.some.injEq,
    Bool.not_eq_true', ← Bool.not_eq_true, h.suspended, not_not]

theorem put (h : IsTold depth s x) (text : String) (value : Value) :
    IsTold depth { s with cache := s.cache.put s.switch text value }
      ⟨{ s with cache := s.cache.put s.switch text value }, x.past ++ [.put text value]⟩ where
  state := rfl
  switch := by
    rw [History.switch?_snoc]
    exact h.switch
  opened := History.hasOpen_snoc_of_idle h.opened rfl rfl
  suspended := by
    rw [← h.suspended, Cache.put]
    split <;> rfl
  nodup := by
    rw [Cache.put]
    split
    · exact Table.nodup_keys_insert h.nodup text value
    · exact h.nodup
  known other v := by
    show (s.cache.put s.switch text value).get? other = some v ↔
      History.Remembers (x.past ++ [.put text value]) other v
    rw [History.remembers_snoc_put, Cache.get?_put, ← h.takes_iff, ← h.known]
    split
    · next hput => simp [hput]
    · next hput => simp [hput]

theorem removed (h : IsTold depth s x) {p : CachePattern} {c : Cache}
    (hc : s.cache.invalidate p = .ok c) :
    IsTold depth { s with cache := c } ⟨{ s with cache := c }, x.past ++ [.removed p]⟩ where
  state := rfl
  switch := by
    rw [History.switch?_snoc]
    exact h.switch
  opened := History.hasOpen_snoc_of_idle h.opened rfl rfl
  suspended := by
    obtain ⟨-, rfl⟩ := Cache.invalidate_eq_ok_iff.mp hc
    exact h.suspended
  nodup := by
    obtain ⟨-, rfl⟩ := Cache.invalidate_eq_ok_iff.mp hc
    exact List.Nodup.sublist (List.filter_sublist.map Prod.fst) h.nodup
  known text v := by
    show c.get? text = some v ↔ History.Remembers (x.past ++ [.removed p]) text v
    rw [History.remembers_snoc_removed, ← h.known, Cache.get?_invalidate hc]
    cases p.takes text <;> simp

theorem turned (h : IsTold depth s x) (on : Bool) :
    IsTold depth { s with switch := on } ⟨{ s with switch := on }, x.past ++ [.turned on]⟩ where
  state := rfl
  switch := by
    rw [History.switch?_snoc]
    rfl
  opened := History.hasOpen_snoc_of_idle h.opened rfl rfl
  suspended := h.suspended
  nodup := h.nodup
  known text v := by
    rw [History.remembers_snoc_of_idle rfl]
    exact h.known text v

/-- Inside of a block there is one more block. -/
theorem suspend (h : IsTold depth s x) :
    IsTold (depth + 1) { s with cache := s.cache.suspend }
      ⟨{ s with cache := s.cache.suspend }, x.past ++ [.suspended]⟩ where
  state := rfl
  switch := by
    rw [History.switch?_snoc]
    exact h.switch
  opened := History.hasOpen_snoc_suspended h.opened
  suspended := by simp [Cache.suspend]
  nodup := h.nodup
  known text v := by
    rw [History.remembers_snoc_of_idle rfl]
    exact h.known text v

/-- Leaving a block goes back to the number of blocks and to the flag outside. -/
theorem resume (h : IsTold depth s x) {inside : State} {y : Point}
    (hinside : IsTold (depth + 1) inside y) :
    IsTold depth { inside with cache := Cache.resume s.cache inside.cache }
      ⟨{ inside with cache := Cache.resume s.cache inside.cache }, y.past ++ [.resumed]⟩ where
  state := rfl
  switch := by
    rw [History.switch?_snoc]
    exact hinside.switch
  opened := History.hasOpen_snoc_resumed hinside.opened
  suspended := h.suspended
  nodup := hinside.nodup
  known text v := by
    rw [History.remembers_snoc_of_idle rfl]
    exact hinside.known text v

/-- **A command does what is recorded of it.** -/
theorem act (h : IsTold depth s x) (command : Command) :
    IsTold depth (session.act command s).2
      ⟨(session.act command s).2, x.past ++ command.events (session.act command s).1⟩ := by
  have hsame : IsTold depth s ⟨s, x.past ++ []⟩ := by
    rw [List.append_nil]
    exact ⟨rfl, h.switch, h.opened, h.suspended, h.nodup, h.known⟩
  cases command with
  | get | size => exact hsame
  | contains text =>
    simp only [session, CacheSession.act]
    rcases knows s.cache text with e | v
    · exact hsame
    · exact hsame
  | put text value => exact h.put text value
  | turn value => exact h.turned value.truthy
  | invalidate request =>
    simp only [session, CacheSession.act]
    rcases hp : CachePattern.ofRequest request with e | p
    · exact hsame
    · rcases hc : s.cache.invalidate p with e | c
      · simp only [bind, Except.bind, hc]
        exact hsame
      · simp only [bind, Except.bind, hc, Command.events, Command.event?, hp]
        exact h.removed hc

end IsTold

/-- The seeded cache is told by its seeds. -/
theorem isTold_seeded (seed : List (String × Value)) (switch : Bool) :
    IsTold 0 ⟨.ofSeed seed, switch⟩ (.seeded seed switch) where
  state := rfl
  switch := by
    have hnone : seed.filterMap (Event.switch? ∘ fun entry => .seeded entry.1 entry.2) = [] := by
      simp [Event.switch?]
    simp [Point.seeded, History.switch?, List.filterMap_map, hnone, Event.switch?]
  opened := by
    simp [Point.seeded, History.HasOpen, List.countP_map, Event.isSuspended, Event.isResumed,
      Function.comp_def]
  suspended := by simp [Cache.ofSeed]
  nodup := Table.nodup_keys_ofPairs seed
  known text v := by
    rw [Point.seeded, Cache.get?, Cache.ofSeed]
    -- from the last seed on: the last one of a text is the one that stays
    induction seed using List.reverseRecOn with
    | nil =>
      rw [List.map_nil, ← List.nil_append [_],
        History.remembers_snoc_of_idle rfl]
      exact ⟨fun h => (by cases h), fun h => absurd h History.not_remembers_nil⟩
    | append_singleton seed entry ih =>
      rw [List.map_append, ← List.cons_append, List.map_singleton, History.remembers_snoc_seeded,
        ← ih, Table.ofPairs, Table.insertAll_append, Table.insertAll_cons, Table.insertAll_nil,
        Table.get?_insert]
      by_cases htext : entry.1 = text
      · simp [htext]
      · simp [htext, Table.ofPairs]

/-- **A session that keeps the history refines one that does not.** -/
theorem refines_recording : Session.Refines IsTold (fun _ => True) id id session recording where
  act := by
    rintro depth s x command h -
    obtain rfl := h.state
    exact ⟨rfl, h.act command⟩
  enter := by
    intro opening depth s x h
    obtain rfl := h.state
    exact .inr ⟨_, _, depth + 1, rfl, rfl, h.suspend, fun after after' hafter => by
      obtain rfl := hafter.state
      exact h.resume hafter⟩
  seen := by
    rintro command depth s x h
    obtain rfl := h.state
    rfl
  seenAt := by
    rintro opening depth s x h
    obtain rfl := h.state
    rfl

/-! ### Removals -/

/-- Whether a request for removal is met at a state: what its pattern selects is removed and
counted, and all else is left in its order; or its matcher fails for some known text, and the
removal fails in the same way and changes nothing; or it stands for no pattern, fails and changes
nothing. -/
def IsMet (s : State) (request : CachePattern.Request) : Prop :=
  (∃ p, CachePattern.ofRequest request = .ok p ∧
    ((∀ text ∈ s.cache.texts, ∃ isSelected, p.selects text = .ok isSelected) ∧
      session.act (.invalidate request) s =
        (.ok (.int (s.cache.entries.countP fun entry => p.takes entry.1)),
          { s with cache.entries := s.cache.entries.filter fun entry => !p.takes entry.1 }) ∨
      ∃ text ∈ s.cache.texts, ∃ fault, p.selects text = .error fault ∧
        session.act (.invalidate request) s = (.error ⟨fault, none⟩, s))) ∨
  ∃ v, request = .value v ∧ v.text? = none ∧ session.act (.invalidate request) s =
    (.error ⟨.argument (.pattern v.shown), none⟩, s)

/-- What is removed and what is left make up the whole. -/
theorem length_sub_length_filter (entries : Table String Value) (p : CachePattern) :
    entries.length - (entries.filter fun entry => !p.takes entry.1).length =
      entries.countP fun entry => p.takes entry.1 := by
  rw [← List.countP_eq_length_filter,
    List.length_eq_countP_add_countP fun entry => p.takes entry.1]
  simp

theorem isMet (s : State) (request : CachePattern.Request) : IsMet s request := by
  have hpattern {p : CachePattern} (h : CachePattern.ofRequest request = .ok p) :
      IsMet s request := by
    refine .inl ⟨p, h, ?_⟩
    rcases hc : s.cache.invalidate p with fault | c
    · obtain ⟨before, entry, after, hsplit, -, herror⟩ := Cache.invalidate_eq_error_iff.mp hc
      refine .inr ⟨entry.1, List.mem_map_of_mem (by simp [hsplit]), fault, herror, ?_⟩
      simp only [session, act, h, bind, Except.bind, hc]
    · obtain ⟨hall, rfl⟩ := Cache.invalidate_eq_ok_iff.mp hc
      refine .inl ⟨List.forall_mem_map.mpr hall, ?_⟩
      simp only [session, act, h, bind, Except.bind, hc, Cache.forget, length_sub_length_filter]
  cases request with
  | pattern p => exact hpattern rfl
  | expression regex => exact hpattern rfl
  | value v =>
    rcases htext : v.text? with - | text
    · refine .inr ⟨v, rfl, htext, ?_⟩
      simp only [session, act, CachePattern.ofRequest, htext]
      rfl
    · refine hpattern (p := .exact text) ?_
      rw [CachePattern.ofRequest, htext]
      rfl

/-- **A cache is what its history tells**: keeping the history changes no record of a session, and
at every point, inside of blocks too, the history tells whether new entries are taken and which
texts are known with which values; requests for removal are met at every point. -/
theorem tells_recording (seed : List (String × Value)) (switch : Bool)
    (steps : List (Step Command Unit)) :
    recording.run steps (.seeded seed switch) = session.run steps ⟨.ofSeed seed, switch⟩ ∧
    List.Forall₂ (fun s x => x.state = s ∧
        (s.cache.enabled s.switch = true ↔ x.past.Takes) ∧ s.cache.texts.Nodup ∧
        (∀ text v, s.cache.get? text = some v ↔ x.past.Remembers text v) ∧
        ∀ request, IsMet s request)
      (⟨.ofSeed seed, switch⟩ :: session.allStates steps ⟨.ofSeed seed, switch⟩)
      (.seeded seed switch :: recording.allStates steps (.seeded seed switch)) := by
  have hseeded := isTold_seeded seed switch
  have hrun : Record.allMap id (recording.run steps (.seeded seed switch)) =
      Record.allMap id (session.run steps ⟨.ofSeed seed, switch⟩) :=
    refines_recording.run (fun _ _ => trivial) hseeded
  rw [Record.allMap_id, Record.allMap_id] at hrun
  have hstates : List.Forall₂ (Session.Refines.Related IsTold)
      (session.allStates steps ⟨.ofSeed seed, switch⟩)
      (recording.allStates steps (.seeded seed switch)) :=
    refines_recording.forall₂_allStates (fun _ _ => trivial) hseeded
  -- whatever number of blocks is open at a point, what is told there is the same
  refine ⟨hrun, (hstates.cons ⟨0, hseeded⟩).imp ?_⟩
  rintro s x ⟨depth, h⟩
  exact ⟨h.state, h.takes_iff, h.nodup, h.known, isMet s⟩

end CacheSession

end Formulary
