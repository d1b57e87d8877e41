import Formulary.Calculator.Solver

/-!
# Sessions

A session is a list of steps on some state: commands, commands run as a callback inside an opening,
and blocks of steps inside an opening. Leaving an opening is part of the step, however the inside
ends. Every step leaves a record of its outcome and of what can be seen of the state after it; a
block also records what could be seen on entering and the records of its steps.

A step that fails does not stop the others, unless the step propagates: then the block around it
fails as well, and a block may be told to fail at its end.
-/

namespace Formulary

/-- A step of a session with commands `κ` and openings `β`. -/
inductive Step (κ β : Type)
  | act (propagates : Bool) (command : κ)
  | within (propagates : Bool) (opening : β) (inner : Step κ β)
  | block (propagates : Bool) (opening : β) (failing : Option String) (steps : List (Step κ β))

/-- Whether the failure of a step leaves the block around it. -/
def Step.propagates {κ β : Type} : Step κ β → Bool
  | .act propagates _ | .within propagates _ _ | .block propagates _ _ _ => propagates

/-- What a step came to: a value or a failure, and what is seen afterwards. -/
inductive Record (ω : Type)
  | act (outcome : Except Failure Value) (after : ω)
  | block (outcome : Except Failure Value) (inside : Option ω) (steps : List (Record ω)) (after : ω)

/-- The outcome of a recorded step. -/
def Record.outcome {ω : Type} : Record ω → Except Failure Value
  | .act outcome _ | .block outcome _ _ _ => outcome

/-- How commands and openings act on a state, and what is seen of it. -/
structure Session (σ ω κ β : Type) where
  act : κ → σ → Except Failure Value × σ
  enter : β → σ → Except Failure σ
  leave : β → (before inside : σ) → σ
  seen : κ → σ → ω
  seenAt : β → σ → ω

namespace Session

variable {σ ω κ β : Type} (s : Session σ ω κ β)

/-- A record of an outcome as seen at an opening. -/
def recordAt (opening : β) (outcome : Except Failure Value) (state : σ) : Record ω × σ :=
  (.act outcome (s.seenAt opening state), state)

mutual

/-- One step: its record and the state after it. -/
def step : Step κ β → σ → Record ω × σ
  | .act _ command, state =>
    let (outcome, after) := s.act command state
    (.act outcome (s.seen command after), after)
  | .within _ opening inner, state =>
    match s.enter opening state with
    | .error e => s.recordAt opening (.error e) state
    | .ok inside =>
      let (record, after) := step inner inside
      s.recordAt opening record.outcome (s.leave opening state after)
  | .block _ opening failing inner, state =>
    match s.enter opening state with
    | .error e => (.block (.error e) none [] (s.seenAt opening state), state)
    | .ok inside =>
      let ((records, stopped), after) := steps inner inside
      let outcome : Except Failure Value := match stopped, failing with
        | some e, _ => .error e
        | none, some wording => .error ⟨.worded .runtime wording, none⟩
        | none, none => .ok .none
      let left := s.leave opening state after
      (.block outcome (some (s.seenAt opening inside)) records (s.seenAt opening left), left)

/-- Steps one after the other, up to one whose failure propagates. -/
def steps : List (Step κ β) → σ → (List (Record ω) × Option Failure) × σ
  | [], state => (([], none), state)
  | first :: rest, state =>
    let (record, state) := step first state
    match record.outcome, first.propagates with
    | .error e, true => (([record], some e), state)
    | _, _ =>
      let ((records, stopped), state) := steps rest state
      ((record :: records, stopped), state)

end

/-- The records of a session from a first state. -/
def run (session : List (Step κ β)) (first : σ) : List (Record ω) := (s.steps session first).1.1

end Session

end Formulary
