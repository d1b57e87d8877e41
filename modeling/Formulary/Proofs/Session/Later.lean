import Formulary.Proofs.Session.Mirror

/-!
# Later states

A state of a session comes after another one if commands, entering openings and leaving them lead to
it (`Session.Follows`). The states that steps pass through come after the one where they begin
(`Session.Follows.steps`). So do those in which openings are left that were entered before, and with
them all that may come after a command in the midst of a block.

What a session preserves holds of all later states (`Session.Preserves.of_follows`).
-/

namespace Formulary

variable {σ ω κ β : Type}

namespace Session

/-- Whether a state comes after another one: by commands, each allowed where it is given, by
entering openings and by leaving openings, also such as were entered before. -/
inductive Follows (s : Session σ ω κ β) (allowed : σ → κ → Prop) (a : σ) : σ → Prop
  | here : Follows s allowed a a
  | act {b : σ} {command : κ} :
    Follows s allowed a b → allowed b command → Follows s allowed a (s.act command b).2
  | enter {b inside : σ} {opening : β} :
    Follows s allowed a b → s.enter opening b = .ok inside → Follows s allowed a inside
  | leave (opening : β) (before : σ) {b : σ} :
    Follows s allowed a b → Follows s allowed a (s.leave opening before b)

namespace Follows

variable {s : Session σ ω κ β} {allowed : σ → κ → Prop} {a b : σ}

mutual

/-- The states that a step passes through follow the one before it. -/
theorem step : ∀ (x : Step κ β) {b : σ}, (∀ command ∈ x.commands, ∀ c, allowed c command) →
    Follows s allowed a b →
      Follows s allowed a (s.step x b).2 ∧ ∀ c ∈ s.states x b, Follows s allowed a c
  | .act _ command, b, hx, hb => by
    have hafter := hb.act (hx command List.mem_cons_self b)
    simp only [Session.step, Session.states, List.mem_singleton, forall_eq]
    exact ⟨hafter, hafter⟩
  | .within _ opening inner, b, hx, hb => by
    rcases henter : s.enter opening b with e | inside
    · simp only [Session.step, Session.states, henter, recordAt, List.mem_singleton, forall_eq]
      exact ⟨hb, hb⟩
    · have hinside := hb.enter henter
      obtain ⟨hafter, hstates⟩ := step inner hx hinside
      have hleft := hafter.leave opening b
      simp only [Session.step, Session.states, henter, recordAt]
      -- the states are the one entered, those of the step inside, and the one left behind
      refine ⟨hleft, fun c hc => ?_⟩
      rcases List.mem_cons.mp hc with rfl | hc
      · exact hinside
      · rcases List.mem_append.mp hc with hc | hc
        · exact hstates c hc
        · rw [List.mem_singleton.mp hc]
          exact hleft
  | .block _ opening _ inner, b, hx, hb => by
    rcases henter : s.enter opening b with e | inside
    · simp only [Session.step, Session.states, henter, List.mem_singleton, forall_eq]
      exact ⟨hb, hb⟩
    · have hinside := hb.enter henter
      obtain ⟨hafter, hstates⟩ := steps inner hx hinside
      have hleft := hafter.leave opening b
      simp only [Session.step, Session.states, henter]
      refine ⟨hleft, fun c hc => ?_⟩
      rcases List.mem_cons.mp hc with rfl | hc
      · exact hinside
      · rcases List.mem_append.mp hc with hc | hc
        · exact hstates c hc
        · rw [List.mem_singleton.mp hc]
          exact hleft

/-- The states that several steps pass through follow the one before them. -/
theorem steps : ∀ (xs : List (Step κ β)) {b : σ},
    (∀ command ∈ Step.allCommands xs, ∀ c, allowed c command) → Follows s allowed a b →
      Follows s allowed a (s.steps xs b).2 ∧ ∀ c ∈ s.allStates xs b, Follows s allowed a c
  | [], b, _, hb => ⟨hb, fun _ hc => absurd hc List.not_mem_nil⟩
  | x :: xs, b, hx, hb => by
    obtain ⟨hafter, hstates⟩ :=
      step x (fun command hc => hx command (List.mem_append_left _ hc)) hb
    obtain ⟨hlast, hmore⟩ :=
      steps xs (fun command hc => hx command (List.mem_append_right _ hc)) hafter
    have hboth : ∀ c ∈ s.states x b ++ s.allStates xs (s.step x b).2, Follows s allowed a c :=
      fun c hc => (List.mem_append.mp hc).elim (hstates c) (hmore c)
    simp only [Session.steps, Session.allStates]
    rcases (s.step x b).1.outcome with e | v
    · rcases x.propagates with - | -
      · exact ⟨hlast, hboth⟩
      · rw [List.append_nil]
        exact ⟨hafter, hstates⟩
    · exact ⟨hlast, hboth⟩

end

end Follows

/-- Whether a session preserves a property of its states: no allowed command and no opening ends it,
neither when it is entered nor when it is left, wherever it was entered. -/
structure Preserves (P : σ → Prop) (allowed : σ → κ → Prop) (s : Session σ ω κ β) : Prop where
  act : ∀ {command a}, P a → allowed a command → P (s.act command a).2
  enter : ∀ opening {a inside}, P a → s.enter opening a = .ok inside → P inside
  leave : ∀ opening before {after}, P after → P (s.leave opening before after)

/-- **What a session preserves holds of all later states.** -/
theorem Preserves.of_follows {P : σ → Prop} {allowed : σ → κ → Prop} {s : Session σ ω κ β}
    (h : Preserves P allowed s) {a b : σ} (hab : Follows s allowed a b) (ha : P a) : P b := by
  induction hab with
  | here => exact ha
  | act _ hcommand ih => exact h.act ih hcommand
  | enter _ henter ih => exact h.enter _ ih henter
  | leave opening before _ ih => exact h.leave opening before ih

end Session

end Formulary
