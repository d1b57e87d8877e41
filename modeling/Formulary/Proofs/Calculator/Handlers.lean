import Formulary.Proofs.Calculator.Solution

/-!
# What a handler does in a bulk solve

A bulk solve asks its handler for an answer to every recoverable failure. If the handler always
answers and does no more to the calculator than to read (`SolveHandler.OnlyReads`), it has no other
part in the solve. What the solve finds, and which failures it asks about in which order, are the
same with every such handler (`runsAlike`). So no expression sees an answer, and any two such
handlers leave the same names unsolved.

The failures spread along the names that expressions read. An expression that reads a name without a
value fails before anything of it is evaluated, and its failure lists just the names in it that have
no value, neither in the calculator nor by the solve (`spoiled_of_run_solve`). A handler that binds
names in the middle of a solve is another matter.
-/

namespace Formulary

namespace Ensemble

/-! ### Handlers that read -/

/-- Whether an ensemble is where a calculator and the numbers of a step and a call are as given, but
for what the calculator has learnt. -/
structure StandsAt (setting : Setting) (n : Nat) (c : Calculator) (step calls : Nat)
    (e : Ensemble) : Prop where
  calculator : c.Learnt setting (e.calculator n)
  step : e.step = step
  calls : e.calls = calls

namespace SolveHandler

variable {setting : Setting} {n : Nat} {c : Calculator} {step calls : Nat}

/-- Whether a handler always answers where an ensemble stands, and leaves it standing there. -/
def StaysAt (setting : Setting) (n : Nat) (c : Calculator) (step calls : Nat)
    (handler : SolveHandler) : Prop :=
  ∀ failure e, StandsAt setting n c step calls e → ∃ v e',
    (handler failure).run e = (.ok v, e') ∧ StandsAt setting n c step calls e'

/-- Whether a handler always answers in a bulk solve on the calculator of a number, and does no more
to this calculator than to read on it. With other calculators it may do what it likes, and it may
take notes. -/
abbrev OnlyReads (setting : Setting) (n : Nat) (e : Ensemble) (handler : SolveHandler) : Prop :=
  handler.StaysAt setting n (e.calculator n).attached e.step e.calls

theorem staysAt_quiet (answer : Failure → Value) :
    (quiet fun failure => .ok (answer failure)).StaysAt setting n c step calls :=
  fun _ e he => ⟨_, e, rfl, he⟩

/-- To evaluate on the calculator is to read, if no call is counted. -/
theorem standsAt_of_follows {run : Run Value} {count : Counting Value} {v : Value}
    (h : Follows setting n c step run count) (hcount : count.run calls = (.ok v, calls))
    {e : Ensemble} (he : StandsAt setting n c step calls e) :
    ∃ e', run.run e = (.ok v, e') ∧ StandsAt setting n c step calls e' := by
  obtain ⟨hc, rfl, rfl⟩ := he
  obtain ⟨e', hrun, hcalls, hlearnt⟩ := h e hc rfl
  rw [hcount] at hrun hcalls
  exact ⟨e', hrun, hc.trans hlearnt.calculator, hlearnt.step, hcalls⟩

end SolveHandler

/-- Whether a handler answers failures in turn with values, each time with the notes that it left
the time before. -/
inductive SolveHandler.AnswersInTurn (handler : SolveHandler) :
    List Failure → List String → List Value → List String → Prop
  | nil {notes : List String} : AnswersInTurn handler [] notes [] notes
  | cons {failure : Failure} {failures : List Failure} {v : Value} {vs : List Value}
      {e e' : Ensemble} {notes : List String} (h : (handler failure).run e = (.ok v, e'))
      (hrest : AnswersInTurn handler failures e'.notes vs notes) :
      AnswersInTurn handler (failure :: failures) e.notes (v :: vs) notes

/-- Whether progress is what was found before, but for the answers of a handler: it was asked about
failures in turn, and each answer is the result of the name that the failure spoils. The progress is
one from other progress through some names. -/
structure IsAnswered (handler : SolveHandler) (asked : List Failure) (names : List String)
    (found q q' : Progress) (notes notes' : List String) : Prop where
  solved : q'.solved = found.solved
  kept : ∀ z, z ∉ names → Table.get? q'.results z = Table.get? q.results z
  value : ∀ z ∈ names, Table.has found.solved z = true →
    Table.get? q'.results z = Table.get? found.results z
  answers : ∃ vs, handler.AnswersInTurn asked notes vs notes' ∧
    List.Forall₂ (fun failure v => ∃ z ∈ names, failure.recipient = some z ∧
      Table.get? q'.results z = some v) asked vs

/-- A name that is solved, before names that are solved or answered for. -/
theorem IsAnswered.solve {handler : SolveHandler} {asked : List Failure} {name : String}
    {names : List String} {found q q' : Progress} {v seen : Value} {notes notes' : List String}
    (hname : name ∉ names) (hfound : Table.get? found.results name = some v)
    (h : IsAnswered handler asked names found (q.solve name v seen) q' notes notes') :
    IsAnswered handler asked (name :: names) found q q' notes notes' where
  solved := h.solved
  kept z hz := by
    rw [List.mem_cons, not_or] at hz
    rw [h.kept z hz.2, Progress.solve]
    simp [Table.get?_insert, Ne.symm hz.1]
  value z hz hsolved := by
    rcases List.mem_cons.mp hz with rfl | hz
    · rw [h.kept z hname, hfound, Progress.solve]
      simp [Table.get?_insert]
    · exact h.value z hz hsolved
  answers := by
    obtain ⟨vs, hturn, hresults⟩ := h.answers
    refine ⟨vs, hturn, hresults.imp fun failure v hv => ?_⟩
    obtain ⟨z, hz, hv⟩ := hv
    exact ⟨z, List.mem_cons_of_mem _ hz, hv⟩

/-- A name that is answered for, before names that are solved or answered for. -/
theorem IsAnswered.answer {handler : SolveHandler} {fault : Error} {asked : List Failure}
    {name : String} {names : List String} {found q q' : Progress} {v : Value} {e e' : Ensemble}
    {notes' : List String} (hname : name ∉ names) (hfound : Table.has found.solved name = false)
    (hanswer : (handler ⟨fault, some name⟩).run e = (.ok v, e'))
    (h : IsAnswered handler asked names found (q.answer name v) q' e'.notes notes') :
    IsAnswered handler (⟨fault, some name⟩ :: asked) (name :: names) found q q' e.notes notes' where
  solved := h.solved
  kept z hz := by
    rw [List.mem_cons, not_or] at hz
    rw [h.kept z hz.2, Progress.answer]
    simp [Table.get?_insert, Ne.symm hz.1]
  value z hz hsolved := by
    rcases List.mem_cons.mp hz with rfl | hz
    · rw [hfound] at hsolved
      cases hsolved
    · exact h.value z hz hsolved
  answers := by
    obtain ⟨vs, hturn, hresults⟩ := h.answers
    refine ⟨v :: vs, .cons hanswer hturn, .cons ⟨name, List.mem_cons_self, rfl, ?_⟩
      (hresults.imp fun failure v hv => ?_)⟩
    · rw [h.kept name hname, Progress.answer]
      simp [Table.get?_insert]
    · obtain ⟨z, hz, hv⟩ := hv
      exact ⟨z, List.mem_cons_of_mem _ hz, hv⟩

section

variable {library : Library} {setting : Setting} {n : Nat} {c : Calculator} {step calls : Nat}

variable (library setting n c step calls) in
/-- Whether a run through names fails with every handler that only reads, and with one failure. -/
def FailsAlike (named : List Named) (solved : Table String Value) (names : List String)
    (failure : Failure) : Prop :=
  ∀ (handler : SolveHandler) (q : Progress) (e : Ensemble),
    handler.StaysAt setting n c step calls → q.solved = solved → StandsAt setting n c step calls e →
    ∃ e', (solveNames (evaluateEach library setting n) handler n named q names).run e =
      (.error failure, e')

variable (library setting n c step calls) in
/-- Whether a run through names finds the same with every handler that only reads, and asks about
the same failures. -/
def FindsAlike (named : List Named) (solved : Table String Value) (names : List String)
    (found : Progress) (asked : List Failure) : Prop :=
  ∀ (handler : SolveHandler) (q : Progress) (e : Ensemble),
    handler.StaysAt setting n c step calls → q.solved = solved → StandsAt setting n c step calls e →
    ∃ q' e',
      (solveNames (evaluateEach library setting n) handler n named q names).run e = (.ok q', e') ∧
      IsAnswered handler asked names found q q' e.notes e'.notes

/-! ### One name more -/

variable (library setting n c step calls) in
/-- Whether an expression can be the next one of a run: nothing is passed on for its name, and its
evaluation follows the calculator alone and counts no call. -/
structure IsNext (named : List Named) (x : Named) (solved : Table String Value) : Prop where
  nodup : (namesOf named).Nodup
  view : c.view = c.memory
  mem : x ∈ named
  bound : boundValue? c.memory x.name = none
  follows : Follows setting n c step
    (evaluateEach library setting n x.expression (.map (Mapping.ofNames solved)))
    (forEach (c.valueOf library setting step (Mapping.ofNames solved)) x.expression)
  quiet : ((forEach (c.valueOf library setting step (Mapping.ofNames solved))
    x.expression).run calls).2 = calls

section

variable {named rest : List Named} {x : Named} {solved : Table String Value}
  (hx : IsNext library setting n c step calls named x solved)

include hx

/-- What the first expression of a run evaluates to does not depend on the handler, which is asked
where this is a recoverable failure. -/
theorem run_solveNames_cons (rest : List Named) {handler : SolveHandler} {q : Progress}
    {e : Ensemble} (hq : q.solved = solved) (he : StandsAt setting n c step calls e) :
    ∃ e₁, e₁.notes = e.notes ∧ StandsAt setting n c step calls e₁ ∧
      (solveNames (evaluateEach library setting n) handler n named q (namesOf (x :: rest))).run e =
        match c.outcome library setting step calls (Value.settled (.result step x.name))
          (Mapping.ofNames solved) x.expression with
        | .ok v => (solveNames (evaluateEach library setting n) handler n named
            (q.solve x.name v (v.identified (.result step x.name))) (namesOf rest)).run e₁
        | .error fault => if fault.IsRecoverable then
            (handler ⟨fault, some x.name⟩ >>= fun v =>
              solveNames (evaluateEach library setting n) handler n named (q.answer x.name v)
                (namesOf rest)).run e₁
          else (.error ⟨fault, none⟩, e₁) := by
  subst hq
  obtain ⟨hc, rfl, rfl⟩ := he
  obtain ⟨e₁, hrun, hcalls, hlearnt⟩ := run_solveAnew hx.follows hc (.inl hx.quiet) handler
  refine ⟨e₁, hlearnt.notes, ⟨hc.trans hlearnt.calculator, hlearnt.step, hcalls⟩, ?_⟩
  have hone : (solveOne (evaluateEach library setting n) handler n q x).run e =
      (solveAnew (evaluateEach library setting n) handler q x).run e := by
    rw [solveOne, Stateful.run_bind, Stateful.run_get]
    simp only [hc.view, hx.view, hx.bound]
  rw [namesOf_cons, solveNames, find?_of_mem hx.nodup hx.mem, Stateful.run_bind, hone, hrun]
  rcases c.outcome library setting e.step e.calls (Value.settled (.result e.step x.name))
    (Mapping.ofNames q.solved) x.expression with fault | v
  · by_cases hrecoverable : fault.IsRecoverable
    · simp only [if_pos hrecoverable, map_eq_pure_bind, Stateful.run_bind]
      rcases (handler ⟨fault, some x.name⟩).run e₁ with ⟨failure | v, e₂⟩
      · rfl
      · rfl
    · simp only [if_neg hrecoverable]
  · rfl

/-- A failure that is not recoverable ends the run, and no handler is asked. -/
theorem failsAlike_cons (rest : List Named) {fault : Error} (hrecoverable : ¬ fault.IsRecoverable)
    (houtcome : c.outcome library setting step calls (Value.settled (.result step x.name))
      (Mapping.ofNames solved) x.expression = .error fault) :
    FailsAlike library setting n c step calls named solved (namesOf (x :: rest)) ⟨fault, none⟩ := by
  intro handler q e _ hq he
  obtain ⟨e₁, -, -, hrun⟩ := run_solveNames_cons hx rest hq he
  rw [hrun, houtcome]
  simp only [if_neg hrecoverable]
  exact ⟨e₁, rfl⟩

/-- A recoverable failure is put to the handler, and its answer is seen by no other expression. -/
theorem exists_answer_cons (rest : List Named) {fault : Error} (hrecoverable : fault.IsRecoverable)
    (houtcome : c.outcome library setting step calls (Value.settled (.result step x.name))
      (Mapping.ofNames solved) x.expression = .error fault) {handler : SolveHandler} {q : Progress}
    {e : Ensemble} (hhandler : handler.StaysAt setting n c step calls) (hq : q.solved = solved)
    (he : StandsAt setting n c step calls e) :
    ∃ e₁ v e₂, e₁.notes = e.notes ∧ (handler ⟨fault, some x.name⟩).run e₁ = (.ok v, e₂) ∧
      StandsAt setting n c step calls e₂ ∧
      (solveNames (evaluateEach library setting n) handler n named q (namesOf (x :: rest))).run e =
        (solveNames (evaluateEach library setting n) handler n named (q.answer x.name v)
          (namesOf rest)).run e₂ := by
  obtain ⟨e₁, hnotes, he₁, hrun⟩ := run_solveNames_cons hx rest hq he
  obtain ⟨v, e₂, hanswer, he₂⟩ := hhandler ⟨fault, some x.name⟩ e₁ he₁
  refine ⟨e₁, v, e₂, hnotes, hanswer, he₂, ?_⟩
  rw [hrun, houtcome]
  simp only [if_pos hrecoverable, Stateful.run_bind, hanswer]

theorem FailsAlike.answer {fault : Error} (hrecoverable : fault.IsRecoverable)
    (houtcome : c.outcome library setting step calls (Value.settled (.result step x.name))
      (Mapping.ofNames solved) x.expression = .error fault) {failure : Failure}
    (h : FailsAlike library setting n c step calls named solved (namesOf rest) failure) :
    FailsAlike library setting n c step calls named solved (namesOf (x :: rest)) failure := by
  intro handler q e hhandler hq he
  obtain ⟨e₁, v, e₂, -, -, he₂, hrun⟩ :=
    exists_answer_cons hx rest hrecoverable houtcome hhandler hq he
  rw [hrun]
  exact h handler _ e₂ hhandler hq he₂

theorem FindsAlike.answer {fault : Error} (hrecoverable : fault.IsRecoverable)
    (houtcome : c.outcome library setting step calls (Value.settled (.result step x.name))
      (Mapping.ofNames solved) x.expression = .error fault) {found : Progress}
    {asked : List Failure} (hnew : x.name ∉ namesOf rest)
    (hunsolved : Table.has found.solved x.name = false)
    (h : FindsAlike library setting n c step calls named solved (namesOf rest) found asked) :
    FindsAlike library setting n c step calls named solved (namesOf (x :: rest)) found
      (⟨fault, some x.name⟩ :: asked) := by
  intro handler q e hhandler hq he
  obtain ⟨e₁, v, e₂, hnotes, hanswer, he₂, hrun⟩ :=
    exists_answer_cons hx rest hrecoverable houtcome hhandler hq he
  obtain ⟨q', e', hrun', hq'⟩ := h handler (q.answer x.name v) e₂ hhandler hq he₂
  rw [hrun, ← hnotes]
  exact ⟨q', e', hrun', hq'.answer hnew hunsolved hanswer⟩

/-- A value is seen by the expressions to come, with every handler. -/
theorem run_solveNames_solve (rest : List Named) {v : Value}
    (houtcome : c.outcome library setting step calls (Value.settled (.result step x.name))
      (Mapping.ofNames solved) x.expression = .ok v) {handler : SolveHandler} {q : Progress}
    {e : Ensemble} (hq : q.solved = solved) (he : StandsAt setting n c step calls e) :
    ∃ e₁, e₁.notes = e.notes ∧ StandsAt setting n c step calls e₁ ∧
      (q.solve x.name v (v.identified (.result step x.name))).solved =
        Table.insert solved x.name (v.identified (.result step x.name)) ∧
      (solveNames (evaluateEach library setting n) handler n named q (namesOf (x :: rest))).run e =
        (solveNames (evaluateEach library setting n) handler n named
          (q.solve x.name v (v.identified (.result step x.name))) (namesOf rest)).run e₁ := by
  obtain ⟨e₁, hnotes, he₁, hrun⟩ := run_solveNames_cons hx rest hq he
  refine ⟨e₁, hnotes, he₁, by rw [Progress.solve, hq], ?_⟩
  rw [hrun, houtcome]

theorem FailsAlike.solve {v : Value}
    (houtcome : c.outcome library setting step calls (Value.settled (.result step x.name))
      (Mapping.ofNames solved) x.expression = .ok v) {failure : Failure}
    (h : FailsAlike library setting n c step calls named
      (Table.insert solved x.name (v.identified (.result step x.name))) (namesOf rest) failure) :
    FailsAlike library setting n c step calls named solved (namesOf (x :: rest)) failure := by
  intro handler q e hhandler hq he
  obtain ⟨e₁, -, he₁, hsolved, hrun⟩ :=
    run_solveNames_solve hx rest houtcome hq he
  rw [hrun]
  exact h handler _ e₁ hhandler hsolved he₁

theorem FindsAlike.solve {v : Value}
    (houtcome : c.outcome library setting step calls (Value.settled (.result step x.name))
      (Mapping.ofNames solved) x.expression = .ok v) {found : Progress} {asked : List Failure}
    (hnew : x.name ∉ namesOf rest) (hresult : Table.get? found.results x.name = some v)
    (h : FindsAlike library setting n c step calls named
      (Table.insert solved x.name (v.identified (.result step x.name))) (namesOf rest) found
        asked) :
    FindsAlike library setting n c step calls named solved (namesOf (x :: rest)) found asked := by
  intro handler q e hhandler hq he
  obtain ⟨e₁, hnotes, he₁, hsolved, hrun⟩ :=
    run_solveNames_solve hx rest houtcome hq he
  obtain ⟨q', e', hrun', hq'⟩ := h handler _ e₁ hhandler hsolved he₁
  rw [hrun, ← hnotes]
  exact ⟨q', e', hrun', hq'.solve hnew hresult⟩

end

/-! ### All names -/

variable {named xs : List Named}

variable (library setting n c step calls) in
/-- Whether a run through names comes to the same with every handler that only reads: it fails in
the same way, or it finds the same and asks about the same failures, one for each name that it does
not solve. -/
def RunsAlike (named xs : List Named) (p : Progress) : Prop :=
  (∃ failure, FailsAlike library setting n c step calls named p.solved (namesOf xs) failure) ∨
  ∃ found asked, solveBy (c.equations library setting step calls .lenient) p xs = .ok found ∧
    asked.map Failure.recipient =
      ((namesOf xs).filter fun z => !Table.has found.solved z).map some ∧
    FindsAlike library setting n c step calls named p.solved (namesOf xs) found asked

section

variable {rest : List Named} {x : Named} {p : Progress}
  (hx : IsNext library setting n c step calls named x p.solved) (hnew : x.name ∉ namesOf rest)

include hx hnew

/-- A name that fails recoverably, before names that run alike. -/
theorem RunsAlike.answer {fault : Error} (hrecoverable : fault.IsRecoverable)
    (houtcome : c.outcome library setting step calls (Value.settled (.result step x.name))
      (Mapping.ofNames p.solved) x.expression = .error fault)
    (hunsolved : Table.get? p.solved x.name = none)
    (hequation : c.equations library setting step calls .lenient x p.solved =
      .ok ⟨.undefined, none⟩)
    (h : RunsAlike library setting n c step calls named rest (p.answer x.name .undefined)) :
    RunsAlike library setting n c step calls named (x :: rest) p := by
  rcases h with ⟨failure, hfails⟩ | ⟨found, asked, hfound, hrecipients, hfinds⟩
  · exact .inl ⟨failure, .answer hx hrecoverable houtcome hfails⟩
  · have hunfound : Table.has found.solved x.name = false := by
      rw [Table.has, (get?_solveBy_of_not_mem hfound hnew).1, Progress.answer, hunsolved]
      rfl
    refine .inr ⟨found, ⟨fault, some x.name⟩ :: asked, ?_, ?_,
      .answer hx hrecoverable houtcome hnew hunfound hfinds⟩
    · rw [solveBy, hequation]
      exact hfound
    · rw [namesOf_cons, List.filter_cons_of_pos (by simp [hunfound]), List.map_cons,
        List.map_cons, hrecipients]

/-- A name that is solved, before names that run alike. -/
theorem RunsAlike.solve {v : Value}
    (houtcome : c.outcome library setting step calls (Value.settled (.result step x.name))
      (Mapping.ofNames p.solved) x.expression = .ok v)
    (hequation : c.equations library setting step calls .lenient x p.solved =
      .ok ⟨v, some (v.identified (.result step x.name))⟩)
    (h : RunsAlike library setting n c step calls named rest
      (p.solve x.name v (v.identified (.result step x.name)))) :
    RunsAlike library setting n c step calls named (x :: rest) p := by
  rcases h with ⟨failure, hfails⟩ | ⟨found, asked, hfound, hrecipients, hfinds⟩
  · exact .inl ⟨failure, .solve hx houtcome hfails⟩
  · obtain ⟨hseen, hresult⟩ := get?_solveBy_of_not_mem hfound hnew
    simp only [Progress.solve, Table.get?_insert, beq_self_eq_true, if_true] at hseen hresult
    refine .inr ⟨found, asked, ?_, ?_, .solve hx houtcome hnew hresult hfinds⟩
    · rw [solveBy, hequation]
      exact hfound
    · rw [namesOf_cons, List.filter_cons_of_neg (by simp [Table.has, hseen]), hrecipients]

end

/-- **A run with any handler that only reads** comes to what it comes to with every other. -/
theorem runsAlike {Good : Progress → Prop} (hnamed : (namesOf named).Nodup)
    (hsub : ∀ x ∈ xs, x ∈ named) (hnodup : (namesOf xs).Nodup) (hview : c.view = c.memory)
    (hunbound : ∀ x ∈ xs, boundValue? c.memory x.name = none)
    (hpassive : IsPassiveRun library setting n .lenient c step calls xs Good)
    (hquiet : IsQuietRun library setting c step calls xs Good) {p : Progress} (hp : Good p)
    (hnew : ∀ z ∈ namesOf xs, Table.get? p.solved z = none) :
    RunsAlike library setting n c step calls named xs p := by
  induction xs generalizing p with
  | nil =>
    refine .inr ⟨p, [], rfl, rfl, fun handler q e _ hq _ => ⟨q, e, rfl, ?_⟩⟩
    exact ⟨hq, fun _ _ => rfl, (by simp [namesOf]), [], .nil, .nil⟩
  | cons x rest ih =>
    have hx : x ∈ x :: rest := List.mem_cons_self
    have hbound := hunbound x hx
    have hnext : IsNext library setting n c step calls named x p.solved :=
      ⟨hnamed, hview, hsub x hx, hbound, hpassive.follows p x hp hx, hquiet p x hp hx⟩
    rw [namesOf_cons, List.nodup_cons] at hnodup
    have hrest := fun {p : Progress} (hp : Good p)
        (hnew : ∀ z ∈ namesOf rest, Table.get? p.solved z = none) =>
      ih (fun y hy => hsub y (List.mem_cons_of_mem _ hy)) hnodup.2
        (fun y hy => hunbound y (List.mem_cons_of_mem _ hy))
        ⟨hpassive.start, fun p y hp hy => hpassive.follows p y hp (List.mem_cons_of_mem _ hy),
          fun p y o hp hy => hpassive.next p y o hp (List.mem_cons_of_mem _ hy)⟩
        (fun p y hp hy => hquiet p y hp (List.mem_cons_of_mem _ hy)) hp hnew
    rcases houtcome : c.outcome library setting step calls (Value.settled (.result step x.name))
      (Mapping.ofNames p.solved) x.expression with fault | v
    · by_cases hrecoverable : fault.IsRecoverable
      · have hequation : c.equations library setting step calls .lenient x p.solved =
            .ok ⟨.undefined, none⟩ := by
          simp only [Calculator.equations, hbound, houtcome, if_pos hrecoverable]
          rfl
        exact .answer hnext hnodup.1 hrecoverable houtcome (hnew x.name (List.mem_map_of_mem hx))
          hequation <| hrest (p := p.answer x.name .undefined) (hpassive.next p x _ hp hx hequation)
            fun z hz => hnew z (List.mem_cons_of_mem _ hz)
      · exact .inl ⟨_, failsAlike_cons hnext rest hrecoverable houtcome⟩
    · have hequation : c.equations library setting step calls .lenient x p.solved =
          .ok ⟨v, some (v.identified (.result step x.name))⟩ := by
        simp only [Calculator.equations, hbound, houtcome]
      refine .solve hnext hnodup.1 houtcome hequation <|
        hrest (hpassive.next p x _ hp hx hequation) fun z hz => ?_
      have hne : ¬ x.name = z := fun h => hnodup.1 (h ▸ hz)
      simp [Progress.solve, Table.get?_insert, hne, hnew z (List.mem_cons_of_mem _ hz)]

end

/-! ### How failures spread -/

section

variable {m : Type → Type} [Monad m] {v : Value}

theorem singles_of_ne (h : ∀ items, v ≠ .list items ∧ v ≠ .tuple items) : v.singles = [v] := by
  cases v with
  | list items => exact absurd rfl (h items).1
  | tuple items => exact absurd rfl (h items).2
  | _ => rfl

theorem forEach_of_ne {one : Value → m Value} (h : ∀ items, v ≠ .list items ∧ v ≠ .tuple items) :
    forEach one v = one v := by
  cases v with
  | list items => exact absurd rfl (h items).1
  | tuple items => exact absurd rfl (h items).2
  | _ => simp only [forEach]

end

section

variable {library : Library} {setting : Setting} {n : Nat} {c : Calculator}

/-- The names of a tree that have no value before its turn are those that never get one: those of
the solve come before it, and the others are not solved at all. -/
theorem unboundIn_opened_of_isBefore {equations : Equations} {named xs : List Named} {p : Progress}
    (hnodup : (namesOf named).Nodup) (horder : c.OrdersFor setting named (namesOf xs))
    (hsolve : solveBy equations .none xs = .ok p) (hflat : c.bindings.IsFlat p.solved) {x : Named}
    (hx : x ∈ named) {tree : Expr} (htree : c.treeOf setting x.expression = .ok tree)
    {part : Table String Value} (hbefore : IsBefore xs x p.solved part) :
    tree.unboundIn (c.opened (Mapping.ofNames part)).memory =
      tree.freeNames.filter fun z => !Table.has c.memory z && !Table.has p.solved z := by
  obtain ⟨missing, -, hpart⟩ := hbefore.exists_isWithout
  refine List.filter_congr fun z hz => ?_
  have hsame : Table.get? c.memory z = none → Table.get? part z = Table.get? p.solved z := by
    intro hbound
    -- a name of the solve that is read is solved before this one; any other name is not solved
    by_cases hznamed : z ∈ namesOf named
    · have hreadsNames : readsNames x.expression = true := by
        by_contra hno
        rw [Calculator.treeOf_of_readsNames (Bool.not_eq_true _ ▸ hno)] at htree
        rw [← Except.ok.inj htree, Expr.freeNames_literal] at hz
        cases hz
      obtain ⟨reads, hreads⟩ := horder.reads x hx
      exact hbefore.get?_of_mem_reads hnodup horder hx hreads (Calculator.mem_reads_of_dependsOn
        hreadsNames htree ((Expr.mem_freeNames_iff.mp hz).imp_left .here) hbound hznamed hreads)
    · have hnone : Table.get? p.solved z = none :=
        get?_solved_of_not_mem hsolve fun hzsolved => hznamed (horder.perm.mem_iff.mp hzsolved)
      rw [hpart.get?, hnone, ite_self]
  rw [Table.has, Calculator.get?_opened_ofNames (hpart.isFlat hflat), Table.has, Table.has]
  rcases hbound : Table.get? c.memory z with - | v
  · rw [hsame hbound, Option.or_none]
    simp
  · simp

/-- An expression with names that have no value comes to the answer to the failure that lists them,
and nothing of it is seen. -/
theorem equations_of_unbound (answer : Failure → Value)
    (hc : c.CallsOnly setting (Function.IsOwn library setting.sheet)) {solved : Table String Value}
    (hsolved : Calculator.KnowsNoRoutine library setting.sheet solved) {x : Named}
    (hsingle : ∀ items, x.expression ≠ .list items ∧ x.expression ≠ .tuple items)
    (hcalls : ∀ f ∈ x.expression.functions, f.IsOwn library setting.sheet)
    (hbound : boundValue? c.memory x.name = none) {tree : Expr}
    (htree : c.treeOf setting x.expression = .ok tree)
    (hne : tree.unboundIn (c.opened (Mapping.ofNames solved)).memory ≠ []) (step calls : Nat) :
    c.equations library setting step calls (fun failure => .ok (answer failure)) x solved =
      .ok ⟨answer ⟨.unbound (tree.unboundIn (c.opened (Mapping.ofNames solved)).memory) none,
        some x.name⟩, none⟩ := by
  have hxs : ∀ y ∈ [x], ∀ w ∈ y.expression.singles, ∀ f ∈ w.functions,
      f.IsOwn library setting.sheet := by
    simpa [singles_of_ne hsingle] using hcalls
  rw [Calculator.equations, hbound]
  simp only [Calculator.outcome_eq hc hxs hsolved List.mem_cons_self, forEach_of_ne hsingle,
    Calculator.valueOf_of_ok htree, List.isEmpty_iff, if_neg hne, Stateful.run_throw]
  rw [if_pos (.inl rfl)]
  rfl

variable {expressions : Value} {e e' : Ensemble} {named : List Named}

/-- **A name without a value spoils what reads it**: an expression in which such a name is free is
not solved, and its result is the answer to a failure that lists all such names. -/
theorem results_of_unbound (answer : Failure → Value)
    (hc : (e.calculator n).CallsOnly setting (Function.IsOwn library setting.sheet))
    (hsingle : ∀ x ∈ named, ∀ items, x.expression ≠ .list items ∧ x.expression ≠ .tuple items)
    (hcalls : ∀ x ∈ named, ∀ f ∈ x.expression.functions,
      f.IsOwn library setting.sheet) {p : Progress}
    (hrun : (solveFlat library setting n (.quiet fun failure => .ok (answer failure))
      expressions).run e = (.ok (named, p), e'))
    (hplain : ∀ z v, Table.get? p.solved z = some v → v.isMap = false) {x : Named} (hx : x ∈ named)
    (hunbound : Table.get? (e.calculator n).memory x.name = none) {tree : Expr}
    (htree : (e.calculator n).treeOf setting x.expression = .ok tree) {z : String}
    (hz : z ∈ tree.freeNames) (hzbound : Table.get? (e.calculator n).memory z = none)
    (hzsolved : Table.get? p.solved z = none) :
    Table.get? p.solved x.name = none ∧
      Table.get? p.results x.name = some (answer ⟨.unbound (tree.freeNames.filter fun z =>
        !Table.has (e.calculator n).memory z && !Table.has p.solved z) none, some x.name⟩) := by
  have hsingles : ∀ y ∈ named, ∀ w ∈ y.expression.singles, ∀ f ∈ w.functions,
      f.IsOwn library setting.sheet := by
    intro y hy w hw
    rw [singles_of_ne (hsingle y hy)] at hw
    rw [List.mem_singleton.mp hw]
    exact hcalls y hy
  obtain ⟨xs, hnamed, hperm, horder, hsolve, hknown, -, -⟩ := solveBy_of_callsOnly hc hsingles hrun
  obtain ⟨hnodup, hnamedBy⟩ := namesOf_namedExpressions hnamed
  obtain ⟨horders, -, -⟩ :=
    Calculator.ordersFor_of_run_solveOrder hnodup (Prod.ext horder rfl)
  have hkeys := nodup_solveBy hsolve
  have hflat : (e.calculator n).bindings.IsFlat p.solved :=
    ⟨hkeys, fun name hname => normalize_of_mem_keys_solved hnamedBy
        (fun y hy => hperm.mem_iff.mp hy) hsolve hname,
      .inr fun entry hentry => hplain _ _ (Table.get?_of_mem hkeys hentry)⟩
  obtain ⟨part, o, hbefore, ho, hresult, hseen⟩ := exists_outcome_of_mem
    (horders.perm.nodup_iff.mpr hnodup) hsolve (hperm.mem_iff.mpr hx)
  obtain ⟨missing, -, hpart⟩ := hbefore.exists_isWithout
  have hnames := unboundIn_opened_of_isBefore hnodup horders hsolve hflat hx htree hbefore
  have hne : tree.unboundIn ((e.calculator n).opened (Mapping.ofNames part)).memory ≠ [] := by
    rw [hnames]
    exact List.ne_nil_of_mem (List.mem_filter.mpr ⟨hz, by simp [Table.has, hzbound, hzsolved]⟩)
  rw [equations_of_unbound answer hc (fun entry hentry => hknown entry (hpart.mem hentry))
    (hsingle x hx) (hcalls x hx) (by rw [boundValue?, hunbound]) htree hne, hnames] at ho
  obtain rfl := Except.ok.inj ho
  exact ⟨hseen, hresult⟩

end

/-! ### The main result -/

/-- The answers of a handler that only answers are its answers. -/
theorem SolveHandler.AnswersInTurn.eq_map {answer : Failure → Value} {asked : List Failure}
    {vs : List Value} {notes notes' : List String}
    (h : SolveHandler.AnswersInTurn (.quiet fun failure => .ok (answer failure)) asked notes vs
      notes') : vs = asked.map answer := by
  induction h with
  | nil => rfl
  | cons h _ ih =>
    obtain ⟨hv, -⟩ := Prod.mk.inj h
    rw [← Except.ok.inj hv, ih, List.map_cons]

/-- Failures that every answer tells alike are the same. -/
theorem eq_of_answers {failure failure' : Failure}
    (h : ∀ answer : Failure → Value, answer failure = answer failure') : failure = failure' := by
  classical
  have hone := h fun other => if other = failure then .int 1 else .int 0
  by_contra hne
  simp only [if_neg (Ne.symm hne)] at hone
  cases hone

/-- Every expression that an order was found for has a tree. -/
theorem exists_treeOf_of_ordersFor {setting : Setting} {c : Calculator} {named : List Named}
    {order : List String} (h : c.OrdersFor setting named order) {x : Named} (hx : x ∈ named) :
    ∃ tree, c.treeOf setting x.expression = .ok tree := by
  obtain ⟨reads, hreads⟩ := h.reads x hx
  rw [Calculator.readsOf] at hreads
  split at hreads
  · rcases htree : c.treeOf setting x.expression with fault | tree
    · rw [htree] at hreads
      cases hreads
    · exact ⟨tree, rfl⟩
  · next hno => exact ⟨_, Calculator.treeOf_of_readsNames (Bool.not_eq_true _ ▸ hno)⟩

section

variable {library : Library} {setting : Setting} {n : Nat} {expressions w : Value}
  {e e₁ : Ensemble} {named : List Named}

/-- Whether a solve finds the same with every handler that only reads, and asks about the same
failures: the values are found, each failure has its answer as the result of the name that it
spoils, and what the handler has noted in the end is what it notes when it answers just these
failures in turn. -/
def SolvesAlike (library : Library) (setting : Setting) (n : Nat) (expressions : Value)
    (e : Ensemble) (named : List Named) (found : Progress) (asked : List Failure) : Prop :=
  ∀ handler : SolveHandler, handler.OnlyReads setting n e → ∃ p e₂ answers,
    (solveFlat library setting n handler expressions).run e = (.ok (named, p), e₂) ∧
    p.solved = found.solved ∧
    (∀ z, Table.has found.solved z = true →
      Table.get? p.results z = Table.get? found.results z) ∧
    handler.AnswersInTurn asked e.notes answers e₂.notes ∧
    List.Forall₂ (fun failure v => ∃ z, failure.recipient = some z ∧
      Table.get? p.results z = some v) asked answers

/-- A solve that returns with one handler that only reads is alike with all of them. -/
theorem exists_solvesAlike {handler : SolveHandler}
    (hc : (e.calculator n).CallsOnly setting (Function.IsOwn library setting.sheet))
    (hnamed : namedExpressions (e.calculator n).bindings expressions = .ok (named, none))
    (hcalls : ∀ x ∈ named, ∀ w ∈ x.expression.singles, ∀ f ∈ w.functions,
      f.IsOwn library setting.sheet)
    (hunbound : ∀ x ∈ named, Table.get? (e.calculator n).memory x.name = none)
    (hhandler : handler.OnlyReads setting n e)
    (h : (solve library setting n handler expressions).run e = (.ok w, e₁)) :
    ∃ found asked order, (e.calculator n).OrdersFor setting named order ∧
      SolvesAlike library setting n expressions e named found asked ∧
      (asked.map Failure.recipient).Perm
        (((namesOf named).filter fun z => !Table.has found.solved z).map some) := by
  obtain ⟨named', p, e₂, hflat⟩ := exists_run_solveFlat_of_run_solve h
  obtain ⟨fault, order, c', after, hnamed', horder, hsolve, -⟩ := run_solveFlat_eq_ok_iff.mp hflat
  obtain ⟨rfl, rfl⟩ := Prod.mk.inj (Except.ok.inj (hnamed.symm.trans hnamed'))
  have hnodup := (namesOf_namedExpressions hnamed).1
  obtain ⟨horders, hlearnt, -⟩ := Calculator.ordersFor_of_run_solveOrder hnodup horder
  obtain ⟨xs, hperm, rfl⟩ := exists_perm_of_namesOf hnodup horders.perm
  have hxs : ∀ x ∈ xs, ∀ w ∈ x.expression.singles, ∀ f ∈ w.functions,
    f.IsOwn library setting.sheet :=
    fun x hx => hcalls x (hperm.mem_iff.mp hx)
  have hstart : StandsAt setting n (e.calculator n).attached e.step e.calls
      (e.put n c'.attached) := by
    refine ⟨?_, rfl, rfl⟩
    rw [calculator_put_self]
    exact hlearnt.attached
  have hbound : ∀ x ∈ xs, boundValue? (e.calculator n).attached.memory x.name = none := by
    intro x hx
    rw [boundValue?, show Table.get? (e.calculator n).attached.memory x.name = none from
      hunbound x (hperm.mem_iff.mp hx)]
  rcases runsAlike (p := .none) hnodup (fun x hx => hperm.mem_iff.mp hx)
    (horders.perm.nodup_iff.mpr hnodup) rfl hbound
    (Calculator.isPassiveRun_of_callsOnly hc.attached hxs)
    (Calculator.isQuietRun_of_callsOnly hc.attached hxs) (by rintro entry ⟨⟩) (fun _ _ => rfl) with
    ⟨failure, hfails⟩ | ⟨found, asked, hfound, hrecipients, hfinds⟩
  · -- then the solve would not have returned
    obtain ⟨e', hrun⟩ := hfails handler .none _ hhandler rfl hstart
    rw [hrun] at hsolve
    cases hsolve
  · refine ⟨found, asked, namesOf xs, horders, fun handler hhandler => ?_, ?_⟩
    · obtain ⟨q, e', hrun, hanswered⟩ := hfinds handler .none _ hhandler rfl hstart
      obtain ⟨answers, hturn, hresults⟩ := hanswered.answers
      refine ⟨q, (e.put n c').released e' n, answers, run_solveFlat_eq_ok_iff.mpr
        ⟨none, namesOf xs, c', e', hnamed, horder, hrun, rfl⟩, hanswered.solved, fun z hz => ?_,
        hturn, hresults.imp fun failure v hv => ?_⟩
      · obtain ⟨v, hv⟩ := Option.isSome_iff_exists.mp hz
        exact hanswered.value z (mem_namesOf_of_get?_solved hfound hv) hz
      · obtain ⟨z, -, hv⟩ := hv
        exact ⟨z, hv⟩
    · rw [hrecipients]
      exact (horders.perm.filter _).map some

/-- Among the failures that every handler is asked about is one for each expression in which a name
without a value is free, listing all such names. -/
theorem mem_asked_of_unbound {found : Progress} {asked : List Failure}
    (hc : (e.calculator n).CallsOnly setting (Function.IsOwn library setting.sheet))
    (hsingle : ∀ x ∈ named, ∀ items, x.expression ≠ .list items ∧ x.expression ≠ .tuple items)
    (hcalls : ∀ x ∈ named, ∀ f ∈ x.expression.functions, f.IsOwn library setting.sheet)
    (halike : SolvesAlike library setting n expressions e named found asked)
    (hrecipients : (asked.map Failure.recipient).Perm
      (((namesOf named).filter fun z => !Table.has found.solved z).map some))
    (hplain : ∀ z v, Table.get? found.solved z = some v → v.isMap = false) {x : Named}
    (hx : x ∈ named) (hunbound : Table.get? (e.calculator n).memory x.name = none) {tree : Expr}
    (htree : (e.calculator n).treeOf setting x.expression = .ok tree) {z : String}
    (hz : z ∈ tree.freeNames) (hzbound : Table.get? (e.calculator n).memory z = none)
    (hzsolved : Table.get? found.solved z = none) :
    Table.get? found.solved x.name = none ∧ ⟨.unbound (tree.freeNames.filter fun z =>
      !Table.has (e.calculator n).memory z && !Table.has found.solved z) none, some x.name⟩ ∈
        asked := by
  -- whatever is answered, the result is the answer to the failure with the names without a value
  have hresults : ∀ answer : Failure → Value, Table.get? found.solved x.name = none ∧
      ∃ p : Progress, Table.get? p.results x.name = some (answer ⟨.unbound
          (tree.freeNames.filter fun z => !Table.has (e.calculator n).memory z &&
            !Table.has found.solved z) none, some x.name⟩) ∧
        ∀ failure ∈ asked, ∃ z, failure.recipient = some z ∧
          Table.get? p.results z = some (answer failure) := by
    intro answer
    obtain ⟨p, e₂, answers, hrun, hsolved, -, hturn, hanswers⟩ :=
      halike _ (SolveHandler.staysAt_quiet answer)
    rw [hturn.eq_map, List.forall₂_map_right_iff, List.forall₂_same] at hanswers
    rw [← hsolved] at hplain hzsolved ⊢
    obtain ⟨hnone, hresult⟩ := results_of_unbound answer hc hsingle hcalls hrun hplain hx hunbound
      htree hz hzbound hzsolved
    exact ⟨hnone, p, hresult, hanswers⟩
  have hunsolved := (hresults fun _ => .none).1
  refine ⟨hunsolved, ?_⟩
  have hrecipient : some x.name ∈ asked.map Failure.recipient := by
    rw [hrecipients.mem_iff]
    refine List.mem_map_of_mem (List.mem_filter.mpr ⟨List.mem_map_of_mem hx, ?_⟩)
    simp [Table.has, hunsolved]
  obtain ⟨failure, hfailure, hname⟩ := List.mem_map.mp hrecipient
  have hfault : failure = _ := eq_of_answers fun answer => by
    obtain ⟨-, p, hresult, hanswers⟩ := hresults answer
    obtain ⟨z, hz, hanswer⟩ := hanswers failure hfailure
    obtain rfl := Option.some.inj (hname.symm.trans hz)
    exact Option.some.inj (hanswer.symm.trans hresult)
  exact hfault ▸ hfailure

/-- **A failure in a bulk solve spoils exactly what depends on it**: let the calculator have
functions of its own only, and let the solve be of single expressions under names that it does not
bind. If the solve returns with a handler that always answers and only reads, it returns with every
such handler, and finds the same values and asks about the same failures, one for each name that it
leaves unsolved. And if no solved value is a mapping, an expression in which a name without a value
is free, be it an unsolved name or none of the solve, is left unsolved with a failure that lists all
such names in the order of their first use. -/
theorem spoiled_of_run_solve {handler : SolveHandler}
    (hc : (e.calculator n).CallsOnly setting (Function.IsOwn library setting.sheet))
    (hnamed : namedExpressions (e.calculator n).bindings expressions = .ok (named, none))
    (hsingle : ∀ x ∈ named, ∀ items, x.expression ≠ .list items ∧ x.expression ≠ .tuple items)
    (hcalls : ∀ x ∈ named, ∀ f ∈ x.expression.functions, f.IsOwn library setting.sheet)
    (hunbound : ∀ x ∈ named, Table.get? (e.calculator n).memory x.name = none)
    (hhandler : handler.OnlyReads setting n e)
    (h : (solve library setting n handler expressions).run e = (.ok w, e₁)) :
    ∃ (found : Progress) (asked : List Failure),
      SolvesAlike library setting n expressions e named found asked ∧
      (∀ handler' : SolveHandler, handler'.OnlyReads setting n e →
        ∃ w' e', (solve library setting n handler' expressions).run e = (.ok w', e')) ∧
      (asked.map Failure.recipient).Perm
        (((namesOf named).filter fun z => !Table.has found.solved z).map some) ∧
      (namesOf named).Nodup ∧
      ((∀ z v, Table.get? found.solved z = some v → v.isMap = false) →
        ∀ x ∈ named, ∃ tree, (e.calculator n).treeOf setting x.expression = .ok tree ∧
          ∀ z ∈ tree.freeNames, Table.get? (e.calculator n).memory z = none →
            Table.get? found.solved z = none → Table.get? found.solved x.name = none ∧
              ⟨.unbound (tree.freeNames.filter fun z =>
                !Table.has (e.calculator n).memory z && !Table.has found.solved z) none,
                  some x.name⟩ ∈ asked) := by
  have hsingles : ∀ x ∈ named, ∀ w ∈ x.expression.singles, ∀ f ∈ w.functions,
      f.IsOwn library setting.sheet := by
    intro x hx w hw
    rw [singles_of_ne (hsingle x hx)] at hw
    rw [List.mem_singleton.mp hw]
    exact hcalls x hx
  obtain ⟨found, asked, order, horders, halike, hrecipients⟩ :=
    exists_solvesAlike hc hnamed hsingles hunbound hhandler h
  have hnodup := (namesOf_namedExpressions hnamed).1
  refine ⟨found, asked, halike, fun handler' hhandler' => ?_, hrecipients, hnodup,
    fun hplain x hx => ?_⟩
  · obtain ⟨p, e₂, -, hrun, -⟩ := halike handler' hhandler'
    exact ⟨_, _, run_solve_of_run_solveFlat hrun rfl⟩
  obtain ⟨tree, htree⟩ := exists_treeOf_of_ordersFor horders hx
  exact ⟨tree, htree, fun z hz hzbound hzsolved => mem_asked_of_unbound hc hsingle hcalls halike
    hrecipients hplain hx (hunbound x hx) htree hz hzbound hzsolved⟩

end

/-- A handler that stores a value in the calculator, and answers. -/
def storing : SolveHandler := fun _ =>
  (onOne 0 (do
    modify fun c => { c with bindings := c.bindings.write (.text "y") (.int 5) }
    return .int 0)).toSolve

/-- An ensemble of one calculator that binds nothing. -/
def bindingNothing : Ensemble := Ensemble.empty.put 0 (.usual .empty [])

/-- Two expressions, each with a name that has no value. -/
def apart : Mapping := [(.text "a", .text "x"), (.text "b", .text "y")]

/-- An ensemble of one calculator whose cache was seeded with a number for a sum. -/
def knowing : Ensemble := Ensemble.empty.put 0
  { Calculator.usual .empty [] with cache := .ofSeed [("b + 1", .node (.literal (.int 5)))] }

/-- A handler that stores what another expression reads has that one solved, which is not solved
with a handler that only answers. And where a cache was seeded, an expression may be solved although
its text mentions a name that is not. -/
theorem solved_ne_of_storing :
    ((solveFlat (fun _ => none) (.initial .empty) 0 storing (.map apart)).run bindingNothing).1.map
        (·.2.solved) = .ok [("b", .int 5)] ∧
    ((solveFlat (fun _ => none) (.initial .empty) 0 (.quiet fun _ => .ok (.int 0))
        (.map apart)).run bindingNothing).1.map (·.2.solved) = .ok [] ∧
    ((solveFlat (fun _ => none) (.initial .empty) 0 .lenient
        (.map [(.text "b", .text "x"), (.text "a", .text "b + 1")])).run knowing).1.map
        (·.2.solved) = .ok [("a", .int 5)] := by
  rw [bindingNothing, knowing, Calculator.usual_eq, Setting.initial_eq]
  refine ⟨?_, ?_, ?_⟩
  · cbv
  · cbv
  · cbv

/-- Three expressions, of which the second reads the first and the first has no value. -/
def spreading : List Named :=
  [⟨"b", .text "b", .text "a+y"⟩, ⟨"a", .text "a", .text "x"⟩, ⟨"c", .text "c", .int 2⟩]

/-- A handler that notes for which name it is asked, and answers with what an expression evaluates
to on the calculator. -/
def noting : SolveHandler := fun failure => do
  modify fun e => { e with notes := e.notes ++ failure.recipient.toList }
  Run.toSolve (evaluateStrict (fun _ => none) (.initial .empty) 0 (.text "1+1") (.map []))

theorem onlyReads_noting : noting.OnlyReads (.initial .empty) 0 bindingNothing := by
  intro failure e he
  have hc : (bindingNothing.calculator 0).attached.CallsOnly (.initial .empty)
      (Function.IsOwn (fun _ => none) .empty) := by
    rw [bindingNothing, calculator_put_self]
    exact (Calculator.callsOnly_usual _ (by simp)).attached
  have hfollows : Follows (.initial .empty) 0 (bindingNothing.calculator 0).attached 0
      (evaluateStrict (fun _ => none) (.initial .empty) 0 (.text "1+1") (.map [])) _ :=
    follows_evaluateStrict hc (by simp) (by simp [Value.singles, Value.functions])
  have hcount : (forEach ((bindingNothing.calculator 0).attached.valueOf (fun _ => none)
      (.initial .empty) 0 []) (.text "1+1")).run 0 = (.ok (.int 2), 0) := by
    rw [bindingNothing, Calculator.usual_eq, Setting.initial_eq]
    cbv
  have hnoted : StandsAt (.initial .empty) 0 (bindingNothing.calculator 0).attached 0 0
      { e with notes := e.notes ++ failure.recipient.toList } :=
    ⟨he.calculator, he.step, he.calls⟩
  obtain ⟨e', hrun, he'⟩ := SolveHandler.standsAt_of_follows hfollows hcount hnoted
  refine ⟨.int 2, e', ?_, he'⟩
  have hnoting : (noting failure).run e =
      (Run.toSolve (evaluateStrict (fun _ => none) (.initial .empty) 0 (.text "1+1") (.map []))).run
        { e with notes := e.notes ++ failure.recipient.toList } := rfl
  rw [hnoting, run_toSolve, hrun]
  rfl

/-- What a handler answers for `a` does not help `b`, which lists `a` among its missing names; and
the handler is asked once for each. -/
theorem spoiled_spreading : ∃ (found : Progress) (asked : List Failure) (p : Progress)
    (e₂ : Ensemble),
    (solveFlat (fun _ => none) (.initial .empty) 0 noting
      (.map (spreading.map fun x => (x.key, x.expression)))).run bindingNothing =
        (.ok (spreading, p), e₂) ∧
    p.solved = found.solved ∧ e₂.notes = ["a", "b"] ∧ found.solved = [("c", .int 2)] ∧
    (asked.map Failure.recipient).Perm [some "b", some "a"] ∧
    ⟨.unbound ["a", "y"] none, some "b"⟩ ∈ asked := by
  have hflat : ((solveFlat (fun _ => none) (.initial .empty) 0 noting
      (.map (spreading.map fun x => (x.key, x.expression)))).run bindingNothing).1 =
      .ok (spreading, ⟨[("c", .int 2)], [("a", .int 2), ("c", .int 2), ("b", .int 2)]⟩) := by
    rw [bindingNothing, Calculator.usual_eq, Setting.initial_eq]
    cbv
  have hnotes : ((solveFlat (fun _ => none) (.initial .empty) 0 noting
      (.map (spreading.map fun x => (x.key, x.expression)))).run bindingNothing).2.notes =
      ["a", "b"] := by
    rw [bindingNothing, Calculator.usual_eq, Setting.initial_eq]
    cbv
  have htree : (bindingNothing.calculator 0).treeOf (.initial .empty) (.text "a+y") =
      .ok (.binary .add (.identifier "a") (.identifier "y")) := by
    rw [bindingNothing, Calculator.usual_eq, Setting.initial_eq]
    cbv
  have hnamed : namedExpressions (bindingNothing.calculator 0).bindings
      (.map (spreading.map fun x => (x.key, x.expression))) = .ok (spreading, none) := by
    rw [bindingNothing, Calculator.usual_eq]
    cbv
  have hc : (bindingNothing.calculator 0).CallsOnly (.initial .empty)
      (Function.IsOwn (fun _ => none) .empty) := by
    rw [bindingNothing, calculator_put_self]
    exact Calculator.callsOnly_usual _ (by simp)
  obtain ⟨found, asked, halike, -, hrecipients, -, hspread⟩ := spoiled_of_run_solve hc hnamed
    (by simp [spreading]) (by simp [spreading, Value.functions])
    (by simp [spreading, bindingNothing, Calculator.usual, Calculator.memory])
    onlyReads_noting (run_solve_of_run_solveFlat (Prod.ext hflat rfl) rfl)
  obtain ⟨p, e₂, answers, hrun, hfound, -⟩ := halike noting onlyReads_noting
  rw [hrun] at hflat hnotes
  obtain ⟨-, rfl⟩ := Prod.mk.inj (Except.ok.inj hflat)
  have hsolved : found.solved = [("c", .int 2)] := hfound.symm
  have hmemory : (bindingNothing.calculator 0).memory = [] := rfl
  have hplain : ∀ z v, Table.get? found.solved z = some v → v.isMap = false := by
    intro z v hv
    rw [hsolved] at hv
    obtain ⟨-, rfl⟩ := Prod.mk.inj (List.mem_singleton.mp (Table.mem_of_get? hv))
    rfl
  obtain ⟨tree, htree', hb⟩ := hspread hplain ⟨"b", .text "b", .text "a+y"⟩ (by simp [spreading])
  obtain rfl := Except.ok.inj (htree.symm.trans htree')
  have hnames : (Expr.binary .add (.identifier "a") (.identifier "y")).freeNames = ["a", "y"] := by
    decide
  rw [hsolved] at hrecipients hb
  refine ⟨found, asked, _, e₂, hrun, hfound, hnotes, hsolved, hrecipients, ?_⟩
  have hlisted := (hb "a" (by simp [hnames]) rfl rfl).2
  rw [hnames, hmemory] at hlisted
  exact hlisted

end Ensemble

end Formulary
