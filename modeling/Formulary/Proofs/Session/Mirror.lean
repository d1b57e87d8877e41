import Formulary.Session.Basic
import Mathlib.Data.List.Forall2

/-!
# Two sessions side by side

A session refines another one if related states stay related: commands come to the same, openings
are entered alike, and what counts of what is seen is the same. The relation may hold for the time
of an opening only and give way to the one outside when the opening is left, so it has a parameter
that stands for what surrounds a step. Then both sessions leave the same records of every list of
steps, as far as they count (`Session.Refines.run`), and pass through related states
(`Session.Refines.forall₂_allStates`).

The induction is over steps and over lists of steps at once. What it carries besides the records is
that both sessions end in states that are related as those where they began.

A session mirrors another one if it does on images of states what the other one does on the states
themselves, so mirroring is refinement by a function (`Session.Mirrors.run`).
-/

namespace Formulary

variable {σ τ γ ω ω' ν κ β : Type}

mutual

/-- The commands in a step, in order. -/
def Step.commands : Step κ β → List κ
  | .act _ command => [command]
  | .within _ _ inner => inner.commands
  | .block _ _ _ steps => Step.allCommands steps

/-- The commands in several steps, in order. -/
def Step.allCommands : List (Step κ β) → List κ
  | [] => []
  | first :: rest => first.commands ++ Step.allCommands rest

end

mutual

/-- A record with what is seen in it changed. -/
def Record.map (f : ω → ν) : Record ω → Record ν
  | .act outcome after => .act outcome (f after)
  | .block outcome inside steps after =>
    .block outcome (inside.map f) (Record.allMap f steps) (f after)

/-- Several records with what is seen in them changed. -/
def Record.allMap (f : ω → ν) : List (Record ω) → List (Record ν)
  | [] => []
  | first :: rest => first.map f :: Record.allMap f rest

end

mutual

theorem Record.map_id : ∀ r : Record ω, r.map id = r
  | .act outcome after => by rw [map, id]
  | .block outcome inside steps after => by rw [map, Option.map_id, allMap_id steps, id, id]

theorem Record.allMap_id : ∀ rs : List (Record ω), Record.allMap id rs = rs
  | [] => rfl
  | first :: rest => by rw [allMap, map_id first, allMap_id rest]

end

theorem Record.outcome_map (f : ω → ν) (r : Record ω) : (r.map f).outcome = r.outcome := by
  cases r with
  | act result after => rw [map, outcome, outcome]
  | block result inside steps after => rw [map, outcome, outcome]

/-- Outcomes do not depend on what counts. -/
theorem Record.map_outcome_allMap (f : ω → ν) (rs : List (Record ω)) :
    (Record.allMap f rs).map Record.outcome = rs.map Record.outcome := by
  induction rs with
  | nil => rfl
  | cons r rest ih => rw [allMap, List.map_cons, List.map_cons, outcome_map, ih]

namespace Session

section

variable (s : Session σ ω κ β)

mutual

/-- The states that a step passes through, in order: those that a command or an opening leads to,
inside of openings too. -/
def states : Step κ β → σ → List σ
  | .act _ command, state => [(s.act command state).2]
  | .within _ opening inner, state =>
    match s.enter opening state with
    | .error _ => [state]
    | .ok inside =>
      inside :: (states inner inside ++ [s.leave opening state (s.step inner inside).2])
  | .block _ opening _ inner, state =>
    match s.enter opening state with
    | .error _ => [state]
    | .ok inside =>
      inside :: (allStates inner inside ++ [s.leave opening state (s.steps inner inside).2])

/-- The states that several steps pass through, up to one whose failure propagates. -/
def allStates : List (Step κ β) → σ → List σ
  | [], _ => []
  | first :: rest, state =>
    states first state ++
      match (s.step first state).1.outcome, first.propagates with
      | .error _, true => []
      | _, _ => allStates rest (s.step first state).2

end

end

/-! ### Refinement -/

/-- Whether a session refines another one by a relation of their states: on the allowed commands,
the openings and what counts of what is seen. Inside an opening the states are related under other
surroundings, and leaving it relates them under the former ones again. -/
structure Refines (R : γ → σ → τ → Prop) (allowed : κ → Prop) (counting : ω → ν)
    (counting' : ω' → ν) (s : Session σ ω κ β) (t : Session τ ω' κ β) : Prop where
  act : ∀ {around a b command}, R around a b → allowed command →
    (t.act command b).1 = (s.act command a).1 ∧
      R around (s.act command a).2 (t.act command b).2
  enter : ∀ opening {around a b}, R around a b →
    (∃ e, s.enter opening a = .error e ∧ t.enter opening b = .error e) ∨
      ∃ inside inside' within, s.enter opening a = .ok inside ∧ t.enter opening b = .ok inside' ∧
        R within inside inside' ∧ ∀ after after', R within after after' →
          R around (s.leave opening a after) (t.leave opening b after')
  seen : ∀ command {around a b}, R around a b →
    counting' (t.seen command b) = counting (s.seen command a)
  seenAt : ∀ opening {around a b}, R around a b →
    counting' (t.seenAt opening b) = counting (s.seenAt opening a)

namespace Refines

variable {R : γ → σ → τ → Prop} {allowed : κ → Prop} {counting : ω → ν} {counting' : ω' → ν}
  {s : Session σ ω κ β} {t : Session τ ω' κ β}

/-- Whether states are related under some surroundings. -/
def Related (R : γ → σ → τ → Prop) (a : σ) (b : τ) : Prop := ∃ around, R around a b

mutual

/-- A step comes to the same in both sessions. -/
theorem step (h : Refines R allowed counting counting' s t) : ∀ (x : Step κ β) {around : γ} {a : σ}
    {b : τ}, (∀ command ∈ x.commands, allowed command) → R around a b →
      (t.step x b).1.map counting' = (s.step x a).1.map counting ∧
        R around (s.step x a).2 (t.step x b).2 ∧
        List.Forall₂ (Related R) (s.states x a) (t.states x b)
  | .act propagates command, around, a, b, hx, hab => by
    obtain ⟨hact, hafter⟩ := h.act hab (hx command List.mem_cons_self)
    simp only [Session.step, Session.states, Record.map, hact, h.seen command hafter]
    exact ⟨trivial, hafter, .cons ⟨around, hafter⟩ .nil⟩
  | .within propagates opening inner, around, a, b, hx, hab => by
    rcases h.enter opening hab with ⟨e, hs, ht⟩ | ⟨inside, inside', within, hs, ht, hin, hleave⟩
    · simp only [Session.step, Session.states, hs, ht, recordAt, Record.map, h.seenAt opening hab]
      exact ⟨trivial, hab, .cons ⟨around, hab⟩ .nil⟩
    · obtain ⟨hrecord, hafter, hstates⟩ := step h inner hx hin
      -- records have the same outcome if they are the same as far as they count
      have houtcome := congrArg Record.outcome hrecord
      rw [Record.outcome_map, Record.outcome_map] at houtcome
      have hleft := hleave _ _ hafter
      simp only [Session.step, Session.states, hs, ht, recordAt, Record.map, houtcome,
        h.seenAt opening hleft]
      exact ⟨trivial, hleft,
        .cons ⟨within, hin⟩ (List.rel_append hstates (.cons ⟨around, hleft⟩ .nil))⟩
  | .block propagates opening failing inner, around, a, b, hx, hab => by
    rcases h.enter opening hab with ⟨e, hs, ht⟩ | ⟨inside, inside', within, hs, ht, hin, hleave⟩
    · simp only [Session.step, Session.states, hs, ht, Record.map, Option.map, Record.allMap,
        h.seenAt opening hab]
      exact ⟨trivial, hab, .cons ⟨around, hab⟩ .nil⟩
    · obtain ⟨hrecords, hstopped, hafter, hstates⟩ := steps h inner hx hin
      have hleft := hleave _ _ hafter
      simp only [Session.step, Session.states, hs, ht, Record.map, Option.map, hrecords, hstopped,
        h.seenAt opening hin, h.seenAt opening hleft]
      exact ⟨trivial, hleft,
        .cons ⟨within, hin⟩ (List.rel_append hstates (.cons ⟨around, hleft⟩ .nil))⟩

/-- Several steps come to the same in both sessions. -/
theorem steps (h : Refines R allowed counting counting' s t) : ∀ (xs : List (Step κ β)) {around : γ}
    {a : σ} {b : τ}, (∀ command ∈ Step.allCommands xs, allowed command) → R around a b →
      Record.allMap counting' (t.steps xs b).1.1 = Record.allMap counting (s.steps xs a).1.1 ∧
        (t.steps xs b).1.2 = (s.steps xs a).1.2 ∧
        R around (s.steps xs a).2 (t.steps xs b).2 ∧
        List.Forall₂ (Related R) (s.allStates xs a) (t.allStates xs b)
  | [], around, a, b, _, hab => by
    simp only [Session.steps, Session.allStates, Record.allMap]
    exact ⟨trivial, trivial, hab, .nil⟩
  | x :: xs, around, a, b, hx, hab => by
    obtain ⟨hrecord, hafter, hstates⟩ :=
      step h x (fun command hc => hx command (List.mem_append_left _ hc)) hab
    obtain ⟨hrecords, hstopped, hlast, hstates'⟩ :=
      steps h xs (fun command hc => hx command (List.mem_append_right _ hc)) hafter
    -- the outcome says whether the steps go on, so both runs stop at the same step
    have houtcome := congrArg Record.outcome hrecord
    rw [Record.outcome_map, Record.outcome_map] at houtcome
    simp only [Session.steps, Session.allStates, houtcome]
    have hmore := List.rel_append hstates hstates'
    rcases (s.step x a).1.outcome with e | v
    · rcases x.propagates with - | -
      · simp only [Record.allMap, hrecord, hrecords]
        exact ⟨trivial, hstopped, hlast, hmore⟩
      · simp only [Record.allMap, hrecord, List.append_nil]
        exact ⟨trivial, trivial, hafter, hstates⟩
    · simp only [Record.allMap, hrecord, hrecords]
      exact ⟨trivial, hstopped, hlast, hmore⟩

end

variable {xs : List (Step κ β)} {around : γ} {a : σ} {b : τ}

/-- **Refining sessions leave the same records**, as far as they count. -/
theorem run (h : Refines R allowed counting counting' s t)
    (hxs : ∀ command ∈ Step.allCommands xs, allowed command) (hab : R around a b) :
    Record.allMap counting' (t.run xs b) = Record.allMap counting (s.run xs a) :=
  (h.steps xs hxs hab).1

/-- Refining sessions pass through related states. -/
theorem forall₂_allStates (h : Refines R allowed counting counting' s t)
    (hxs : ∀ command ∈ Step.allCommands xs, allowed command) (hab : R around a b) :
    List.Forall₂ (Related R) (s.allStates xs a) (t.allStates xs b) :=
  (h.steps xs hxs hab).2.2.2

end Refines

/-- A relation of states that holds under any surroundings. -/
def Anywhere (R : σ → τ → Prop) (_ : Unit) (a : σ) (b : τ) : Prop := R a b

/-! ### Mirroring -/

/-- Whether a session is mirrored by another one on images of its good states: the allowed commands,
the openings and what counts of what is seen. -/
structure Mirrors (good : σ → Prop) (image : σ → σ) (allowed : κ → Prop) (counting : ω → ν)
    (s t : Session σ ω κ β) : Prop where
  act : ∀ {command state}, good state → allowed command →
    t.act command (image state) = ((s.act command state).1, image (s.act command state).2) ∧
      good (s.act command state).2
  enter : ∀ opening {state}, good state →
    t.enter opening (image state) = (s.enter opening state).map image ∧
      ∀ inside, s.enter opening state = .ok inside → good inside
  leave : ∀ opening {before inside}, good before → good inside →
    t.leave opening (image before) (image inside) = image (s.leave opening before inside) ∧
      good (s.leave opening before inside)
  seen : ∀ command state, counting (t.seen command (image state)) = counting (s.seen command state)
  seenAt : ∀ opening state,
    counting (t.seenAt opening (image state)) = counting (s.seenAt opening state)

namespace Mirrors

variable {good : σ → Prop} {image : σ → σ} {allowed : κ → Prop} {counting : ω → ν}
  {s t : Session σ ω κ β}

/-- Mirroring is refinement by the image, whatever surrounds a step. -/
theorem refines (h : Mirrors good image allowed counting s t) :
    Refines (Anywhere fun a b => good a ∧ b = image a) allowed counting counting s t where
  act := by
    rintro - a b command ⟨ha, rfl⟩ hcommand
    obtain ⟨hact, hgood⟩ := h.act ha hcommand
    rw [hact]
    exact ⟨rfl, hgood, rfl⟩
  enter := by
    rintro opening - a b ⟨ha, rfl⟩
    obtain ⟨henter, hinside⟩ := h.enter opening ha
    rcases hs : s.enter opening a with e | inside
    · rw [hs] at henter
      exact .inl ⟨e, rfl, henter⟩
    · rw [hs] at henter
      refine .inr ⟨inside, image inside, (), rfl, henter, ⟨hinside inside hs, rfl⟩, ?_⟩
      rintro after - ⟨hafter, rfl⟩
      obtain ⟨hleave, hleft⟩ := h.leave opening ha hafter
      exact ⟨hleft, hleave⟩
  seen := by
    rintro command - a b ⟨-, rfl⟩
    exact h.seen command a
  seenAt := by
    rintro opening - a b ⟨-, rfl⟩
    exact h.seenAt opening a

/-- **Mirrored sessions leave the same records**, as far as they count. -/
theorem run (h : Mirrors good image allowed counting s t) {xs : List (Step κ β)} {state : σ}
    (hxs : ∀ command ∈ Step.allCommands xs, allowed command) (hstate : good state) :
    Record.allMap counting (t.run xs (image state)) = Record.allMap counting (s.run xs state) := by
  have himage : Anywhere (fun a b => good a ∧ b = image a) () state (image state) := ⟨hstate, rfl⟩
  exact h.refines.run hxs himage

end Mirrors

end Session

end Formulary
