import AsmLab.Proofs.Run.BoundedRun
import AsmLab.Run.Batch

/-! Bounded runs one after the other. Where one run ends the next goes on, so the lines that a whole
batch passes are one walk through the program, and a walk that halts does not depend on the bound. -/
namespace AsmLab

def Event.breakpoint? : Event → Option Nat
  | .breakpoint number => some number
  | _ => none

/-- The program has finished or a line of it faults. -/
def BatchOutcome.Halted (outcome : BatchOutcome) : Prop :=
  outcome = .finished ∨ ∃ fault, outcome = .fault fault

namespace Program

/-- Lines passed one after the other under an observer, with no bound. -/
inductive Walk {State : Type} (observer : Observer State) (program : Program) :
    Machine → State → List Passage → Machine → State → Prop where
  | here {machine : Machine} {state : State} :
      Walk observer program machine state [] machine state
  | pass {machine last : Machine} {state next final : State} {line : Line}
      {decision : LineDecision} {reached : Reached} {passages : List Passage}
      (asked : observer.onLine line machine state = (decision, next))
      (step : program.Step machine decision line reached)
      (rest : Walk observer program reached.machine
        (observer.onStep line machine reached.machine next) passages last final) :
      Walk observer program machine state (⟨line, decision, machine, reached⟩ :: passages) last final

/-- The program has finished, or its line is not skipped and faults. -/
inductive Halts {State : Type} (observer : Observer State) (program : Program) (machine : Machine)
    (state : State) : Prop where
  | finished (ended : machine.isFinished program.length = true)
  | fault {line : Line} {next : State} {fault : Fault}
      (asked : observer.onLine line machine state = (.proceed, next))
      (fails : program.Fails machine line fault)

variable {State : Type} {observer : Observer State} {program : Program}
  {machine middle last otherLast : Machine} {state reaction final otherFinal : State}
  {passages later others : List Passage}

theorem Walk.append (walk : program.Walk observer machine state passages middle reaction)
    (rest : program.Walk observer middle reaction later last final) :
    program.Walk observer machine state (passages ++ later) last final := by
  induction walk with
  | here => exact rest
  | pass asked step _ ih => exact .pass asked step (ih rest)

theorem Halts.not_step (halts : program.Halts observer machine state) {line : Line}
    {decision : LineDecision} {next : State} {reached : Reached}
    (asked : observer.onLine line machine state = (decision, next)) :
    ¬ program.Step machine decision line reached := by
  intro step
  cases halts with
  | finished ended => simp [step.running] at ended
  | fault answer fails =>
    obtain rfl := Option.some.inj (fails.found.symm.trans step.found)
    obtain ⟨proceeds, _⟩ := Prod.mk.inj (asked.symm.trans answer)
    exact step.not_fails proceeds fails

/-- From one machine and one state of the observer there is one walk that halts. -/
theorem Walk.unique (walk : program.Walk observer machine state passages last final)
    (halts : program.Halts observer last final)
    (other : program.Walk observer machine state others otherLast otherFinal)
    (otherHalts : program.Halts observer otherLast otherFinal) : passages = others := by
  -- Neither walk can go on where the other one halts, and where both go on they pass the same line.
  induction walk generalizing others with
  | here =>
    cases other with
    | here => rfl
    | pass asked step _ => exact absurd step (halts.not_step asked)
  | pass asked step _ ih =>
    cases other with
    | here => exact absurd step (otherHalts.not_step asked)
    | pass answer second rest =>
      obtain rfl := Option.some.inj (step.found.symm.trans second.found)
      obtain ⟨rfl, rfl⟩ := Prod.mk.inj (asked.symm.trans answer)
      obtain rfl := (step.unique second).2
      rw [ih halts rest]

end Program

namespace Simulation

variable {State : Type} {observer : Observer State} {budget runs : Nat} {started : Bool}
  {simulation last : Simulation} {state final : State} {result : Except Fault RunOutcome}
  {passages : List Passage} {told : List Event} {outcome : BatchOutcome} {lines : List Nat}

/-- A run walks along its lines. If it did not ask about another line, it left the observer there. -/
theorem Course.walk
    (course : Course observer budget started simulation state passages told result last final) :
    ∃ reaction,
      simulation.program.Walk observer simulation.current state passages last.current reaction ∧
      (told = [] → reaction = final) ∧
      ((result = .ok .finished ∨ ∃ fault, result = .error fault) →
        simulation.program.Halts observer last.current reaction) := by
  induction course with
  | ends ending =>
    cases ending with
    | finished ended => exact ⟨_, .here, fun _ => rfl, fun _ => .finished ended⟩
    | stepLimit | breakpoint => exact ⟨_, .here, fun _ => rfl, by simp⟩
    | stopped => exact ⟨_, .here, nofun, by simp⟩
    | fault _ asks fails => exact ⟨_, .here, nofun, fun _ => .fault asks.answer fails⟩
  | pass asks step _ ih =>
    obtain ⟨reaction, walk, quiet, halts⟩ := ih
    exact ⟨reaction, .pass asks.answer step walk, quiet, halts⟩

/-- Runs one after the other, the lines that they pass, and the breakpoints where they stop. -/
inductive Batch (observer : Observer State) :
    Nat → Simulation → State → List Passage → List Nat → BatchOutcome → Simulation → State →
      Prop where
  | exhausted {simulation : Simulation} {state : State} :
      Batch observer 0 simulation state [] [] .exhausted simulation state
  | finished {runs : Nat} {simulation last : Simulation} {state final : State}
      {passages : List Passage} {told : List Event}
      (course : Course observer simulation.limits.maxSteps false simulation state passages told
        (.ok .finished) last final) :
      Batch observer (runs + 1) simulation state passages [] .finished last final
  | stopped {runs : Nat} {simulation last : Simulation} {state final : State}
      {passages : List Passage} {told : List Event}
      (course : Course observer simulation.limits.maxSteps false simulation state passages told
        (.ok .stopped) last final) :
      Batch observer (runs + 1) simulation state passages [] .stopped last final
  | fault {runs : Nat} {simulation last : Simulation} {state final : State}
      {passages : List Passage} {told : List Event} {fault : Fault}
      (course : Course observer simulation.limits.maxSteps false simulation state passages told
        (.error fault) last final) :
      Batch observer (runs + 1) simulation state passages [] (.fault fault) last
        (observer.onFault fault final)
  | breakpoint {runs line : Nat} {simulation middle last : Simulation} {state reaction final : State}
      {passages later : List Passage} {told : List Event} {lines : List Nat} {outcome : BatchOutcome}
      (course : Course observer simulation.limits.maxSteps false simulation state passages told
        (.ok (.breakpoint line)) middle reaction)
      (rest : Batch observer runs middle reaction later lines outcome last final) :
      Batch observer (runs + 1) simulation state (passages ++ later) (line :: lines) outcome last final
  | stepLimit {runs : Nat} {simulation middle last : Simulation} {state reaction final : State}
      {passages later : List Passage} {told : List Event} {lines : List Nat} {outcome : BatchOutcome}
      (course : Course observer simulation.limits.maxSteps false simulation state passages told
        (.ok .stepLimit) middle reaction)
      (rest : Batch observer runs middle reaction later lines outcome last final) :
      Batch observer (runs + 1) simulation state (passages ++ later) lines outcome last final

variable (observer runs simulation state) in
theorem exists_batch :
    ∃ passages lines outcome last final,
      Batch observer runs simulation state passages lines outcome last final := by
  induction runs generalizing simulation state with
  | zero => exact ⟨_, _, _, _, _, .exhausted⟩
  | succ runs ih =>
    obtain ⟨passages, told, result, last, final, course⟩ :=
      exists_course observer simulation.limits.maxSteps false simulation state
    cases result with
    | error fault => exact ⟨_, _, _, _, _, .fault course⟩
    | ok outcome =>
      cases outcome with
      | finished => exact ⟨_, _, _, _, _, .finished course⟩
      | stopped => exact ⟨_, _, _, _, _, .stopped course⟩
      | breakpoint line =>
        obtain ⟨_, _, _, _, _, rest⟩ := ih last final
        exact ⟨_, _, _, _, _, .breakpoint course rest⟩
      | stepLimit =>
        obtain ⟨_, _, _, _, _, rest⟩ := ih last final
        exact ⟨_, _, _, _, _, .stepLimit course rest⟩

namespace Batch

variable (batch : Batch observer runs simulation state passages lines outcome last final)
include batch

theorem history_eq : last.history = simulation.history ++ passages.map Passage.after := by
  induction batch with
  | exhausted => rw [List.map_nil, List.append_nil]
  | finished course | stopped course | fault course => exact course.history_eq
  | breakpoint course _ ih | stepLimit course _ ih =>
    rw [ih, course.history_eq, List.map_append, List.append_assoc]

/-- The runs of a batch that ends with the program make up one walk. -/
theorem walk (halted : outcome.Halted) :
    ∃ reaction,
      simulation.program.Walk observer simulation.current state passages last.current reaction ∧
      simulation.program.Halts observer last.current reaction := by
  induction batch with
  | exhausted | stopped => simp [BatchOutcome.Halted] at halted
  | finished course =>
    obtain ⟨reaction, walk, _, halts⟩ := course.walk
    exact ⟨reaction, walk, halts (.inl rfl)⟩
  | fault course =>
    obtain ⟨reaction, walk, _, halts⟩ := course.walk
    exact ⟨reaction, walk, halts (.inr ⟨_, rfl⟩)⟩
  | breakpoint course _ ih | stepLimit course _ ih =>
    obtain ⟨reaction, walk, quiet, _⟩ := course.walk
    obtain ⟨later, rest, halts⟩ := ih halted
    rw [course.program_eq] at rest halts
    cases course.closing with
    | quiet =>
      obtain rfl := quiet rfl
      exact ⟨later, walk.append rest, halts⟩

end Batch

/-- Adds a breakpoint to the notes of an observer. -/
def noteBreakpoint (_ : Simulation) (line : Nat) (state : State × List Event) : State × List Event :=
  (state.1, state.2 ++ [.breakpoint line])

/-- Within a run the observer is told of no breakpoint. -/
theorem Course.run_noted
    (course : Course observer simulation.limits.maxSteps false simulation state passages told result
      last final) (log : List Event) :
    ∃ events, events.filterMap Event.breakpoint? = [] ∧
      simulation.run observer.recorded (state, log) =
        (result, last, hearFault observer result final, log ++ events) := by
  refine ⟨_, ?_, course.run_recorded log⟩
  have passed : (passages.flatMap Passage.events).filterMap Event.breakpoint? = [] := by
    rw [List.filterMap_flatMap]
    exact List.flatMap_eq_nil_iff.mpr fun _ _ => rfl
  have ended : (faultEvents result).filterMap Event.breakpoint? = [] := by
    cases result <;> rfl
  rw [List.filterMap_append, List.filterMap_append, passed, ended]
  cases course.closing with
  | quiet | stopped | fault => rfl

/-- The batch of an observer that notes everything passes the same lines, and its notes hold the
breakpoints in order. -/
theorem Batch.runBatch_eq
    (batch : Batch observer runs simulation state passages lines outcome last final)
    (log : List Event) :
    ∃ events, events.filterMap Event.breakpoint? = lines ∧
      runBatch observer.recorded noteBreakpoint runs simulation (state, log) =
        (outcome, last, final, log ++ events) := by
  induction batch generalizing log with
  | exhausted => exact ⟨[], rfl, by rw [runBatch, List.append_nil]⟩
  | finished course | stopped course | fault course =>
    obtain ⟨events, quiet, run⟩ := course.run_noted log
    refine ⟨events, quiet, ?_⟩
    rw [runBatch, run]
    rfl
  | @breakpoint _ line _ _ _ _ _ _ _ _ _ _ _ course _ ih =>
    obtain ⟨events, quiet, run⟩ := course.run_noted log
    obtain ⟨later, same, rest⟩ := ih (log ++ events ++ [.breakpoint line])
    refine ⟨events ++ .breakpoint line :: later, ?_, ?_⟩
    · rw [List.filterMap_append, quiet, ← same]
      rfl
    · rw [runBatch, run]
      refine rest.trans ?_
      rw [List.append_assoc, List.append_assoc]
      rfl
  | stepLimit course _ ih =>
    obtain ⟨events, quiet, run⟩ := course.run_noted log
    obtain ⟨later, same, rest⟩ := ih (log ++ events)
    refine ⟨events ++ later, ?_, ?_⟩
    · rw [List.filterMap_append, quiet, same, List.nil_append]
    · rw [runBatch, run]
      refine rest.trans ?_
      rw [List.append_assoc]

end Simulation

end AsmLab
