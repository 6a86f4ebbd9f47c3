import AsmLab.Proofs.Run.Stepping

/-! The course of a bounded run: the lines that it passes one after the other, and how it ends. An
observer that notes what it is told sees the same course as the one that it notes for. -/
namespace AsmLab

/-- What an observer, or the caller of a run, is told. -/
inductive Event where
  | line (line : Line) (machine : Machine) (decision : LineDecision)
  | step (line : Line) (before after : Machine)
  | fault (fault : Fault)
  | breakpoint (line : Nat)

/-- Reacts in the same way and notes what it is told, with its own answers. -/
def Observer.recorded {State : Type} (observer : Observer State) :
    Observer (State × List Event) where
  onLine line machine state :=
    let (decision, next) := observer.onLine line machine state.1
    (decision, next, state.2 ++ [.line line machine decision])
  onStep line before after state :=
    (observer.onStep line before after state.1, state.2 ++ [.step line before after])
  onFault fault state := (observer.onFault fault state.1, state.2 ++ [.fault fault])

/-- A line that a run passed. -/
structure Passage where
  line : Line
  decision : LineDecision
  before : Machine
  reached : Reached

namespace Passage

def after (passage : Passage) : Machine :=
  passage.reached.machine

/-- What the observer is told of the line. -/
def events (passage : Passage) : List Event :=
  [.line passage.line passage.before passage.decision,
    .step passage.line passage.before passage.after]

end Passage

namespace Simulation

variable {State : Type} {observer : Observer State} {budget : Nat} {started : Bool}
  {simulation last : Simulation} {state final : State} {result : Except Fault RunOutcome}
  {passages : List Passage} {told : List Event}

/-- The observer decides about the current line of a running simulation, which is not in front of a
breakpoint unless the run starts there. -/
structure Asks (simulation : Simulation) (observer : Observer State) (started : Bool)
    (state : State) (line : Line) (decision : LineDecision) (next : State) : Prop where
  running : simulation.isFinished = false
  unmarked : (started && simulation.program.isBreakpoint simulation.current.rip) = false
  found : simulation.program.line? simulation.current.rip = some line
  answer : observer.onLine line simulation.current state = (decision, next)

/-- The ways in which a run ends in front of the current line, and what the observer is told then. -/
inductive Ending (observer : Observer State) (budget : Nat) (started : Bool)
    (simulation : Simulation) (state : State) :
    Except Fault RunOutcome → List Event → Simulation → State → Prop where
  | finished (ended : simulation.isFinished = true) :
      Ending observer budget started simulation state (.ok .finished) [] simulation state
  | stepLimit (running : simulation.isFinished = false) (spent : budget = 0) :
      Ending observer budget started simulation state (.ok .stepLimit) [] simulation state
  | breakpoint (running : simulation.isFinished = false) (left : 0 < budget)
      (marked : (started && simulation.program.isBreakpoint simulation.current.rip) = true) :
      Ending observer budget started simulation state
        (.ok (.breakpoint simulation.current.rip)) [] simulation state
  | stopped {line : Line} {next : State} (left : 0 < budget)
      (asks : simulation.Asks observer started state line .stop next) :
      Ending observer budget started simulation state
        (.ok .stopped) [.line line simulation.current .stop] simulation next
  | fault {line : Line} {next : State} {fault : Fault} (left : 0 < budget)
      (asks : simulation.Asks observer started state line .proceed next)
      (fails : simulation.program.Fails simulation.current line fault) :
      Ending observer budget started simulation state
        (.error fault) [.line line simulation.current .proceed] (simulation.failed fault) next

/-- A run passes lines as long as the observer lets it, and then ends. -/
inductive Course (observer : Observer State) :
    Nat → Bool → Simulation → State → List Passage → List Event →
      Except Fault RunOutcome → Simulation → State → Prop where
  | ends {budget : Nat} {started : Bool} {simulation last : Simulation} {state final : State}
      {result : Except Fault RunOutcome} {told : List Event}
      (ending : Ending observer budget started simulation state result told last final) :
      Course observer budget started simulation state [] told result last final
  | pass {budget : Nat} {started : Bool} {simulation last : Simulation} {state next final : State}
      {line : Line} {decision : LineDecision} {reached : Reached} {passages : List Passage}
      {result : Except Fault RunOutcome} {told : List Event}
      (asks : simulation.Asks observer started state line decision next)
      (step : simulation.program.Step simulation.current decision line reached)
      (rest : Course observer budget true (simulation.passed decision reached)
        (observer.onStep line simulation.current reached.machine next)
        passages told result last final) :
      Course observer (budget + 1) started simulation state
        (⟨line, decision, simulation.current, reached⟩ :: passages) told result last final

variable (observer budget started simulation state) in
theorem exists_course :
    ∃ passages told result last final,
      Course observer budget started simulation state passages told result last final := by
  induction budget generalizing started simulation state with
  | zero =>
    cases running : simulation.isFinished with
    | true => exact ⟨_, _, _, _, _, .ends (.finished running)⟩
    | false => exact ⟨_, _, _, _, _, .ends (.stepLimit running rfl)⟩
  | succ budget ih =>
    cases running : simulation.isFinished with
    | true => exact ⟨_, _, _, _, _, .ends (.finished running)⟩
    | false =>
      cases marked : started && simulation.program.isBreakpoint simulation.current.rip with
      | true => exact ⟨_, _, _, _, _, .ends (.breakpoint running budget.succ_pos marked)⟩
      | false =>
        obtain ⟨line, found⟩ := Program.exists_line running
        obtain ⟨⟨decision, next⟩, answer⟩ :
            ∃ asked, observer.onLine line simulation.current state = asked := ⟨_, rfl⟩
        have asks : simulation.Asks observer started state line decision next :=
          ⟨running, marked, found, answer⟩
        cases decision with
        | stop => exact ⟨_, _, _, _, _, .ends (.stopped budget.succ_pos asks)⟩
        | skip =>
          have step : simulation.program.Step simulation.current .skip line _ :=
            .skipped running found
          obtain ⟨_, _, _, _, _, rest⟩ := ih true (simulation.passed .skip _)
            (observer.onStep line simulation.current _ next)
          exact ⟨_, _, _, _, _, .pass asks step rest⟩
        | proceed =>
          rcases Program.step_or_fails running found with ⟨reached, step⟩ | ⟨fault, fails⟩
          · obtain ⟨_, _, _, _, _, rest⟩ := ih true (simulation.passed .proceed reached)
              (observer.onStep line simulation.current reached.machine next)
            exact ⟨_, _, _, _, _, .pass asks step rest⟩
          · exact ⟨_, _, _, _, _, .ends (.fault budget.succ_pos asks fails)⟩

theorem Ending.runFor_eq
    (ending : Ending observer budget started simulation state result told last final) :
    runFor observer budget started simulation state = (result, last, final) := by
  cases ending with
  | finished ended => cases budget <;> simp [runFor, ended]
  | stepLimit running spent =>
    subst spent
    simp [runFor, running]
  | breakpoint running left marked =>
    obtain ⟨budget, rfl⟩ := Nat.exists_eq_add_one_of_ne_zero left.ne'
    simp only [runFor, running, marked]
    rfl
  | stopped left asks =>
    obtain ⟨budget, rfl⟩ := Nat.exists_eq_add_one_of_ne_zero left.ne'
    simp only [runFor, asks.running, asks.unmarked, asks.found, asks.answer]
    rfl
  | fault left asks fails =>
    obtain ⟨budget, rfl⟩ := Nat.exists_eq_add_one_of_ne_zero left.ne'
    simp only [runFor, asks.running, asks.unmarked, asks.found, asks.answer,
      stepForward_fails fails]
    rfl

theorem Course.runFor_eq
    (course : Course observer budget started simulation state passages told result last final) :
    runFor observer budget started simulation state = (result, last, final) := by
  induction course with
  | ends ending => exact ending.runFor_eq
  | pass asks step rest ih =>
    rw [runFor]
    simp only [asks.running, asks.unmarked, asks.found, asks.answer]
    cases step with
    | evaluated running found evaluates returns =>
      simp only [stepForward_step (.evaluated running found evaluates returns)]
      exact ih
    | skipped running found => exact ih

theorem Asks.recorded {line : Line} {decision : LineDecision} {next : State}
    (asks : simulation.Asks observer started state line decision next) (log : List Event) :
    simulation.Asks observer.recorded started (state, log) line decision
      (next, log ++ [.line line simulation.current decision]) :=
  ⟨asks.running, asks.unmarked, asks.found, by simp [Observer.recorded, asks.answer]⟩

theorem Ending.recorded
    (ending : Ending observer budget started simulation state result told last final)
    (log : List Event) :
    Ending observer.recorded budget started simulation (state, log) result told last
      (final, log ++ told) := by
  cases ending with
  | finished ended => rw [List.append_nil]; exact .finished ended
  | stepLimit running spent => rw [List.append_nil]; exact .stepLimit running spent
  | breakpoint running left marked => rw [List.append_nil]; exact .breakpoint running left marked
  | stopped left asks => exact .stopped left (asks.recorded log)
  | fault left asks fails => exact .fault left (asks.recorded log) fails

/-- The observer that notes what it is told has the same course, and its notes tell it in order. -/
theorem Course.recorded
    (course : Course observer budget started simulation state passages told result last final)
    (log : List Event) :
    Course observer.recorded budget started simulation (state, log) passages told result last
      (final, log ++ passages.flatMap Passage.events ++ told) := by
  induction course generalizing log with
  | ends ending =>
    rw [List.flatMap_nil, List.append_nil]
    exact .ends (ending.recorded log)
  | @pass budget started simulation last state next final line decision reached passages result
      told asks step rest ih =>
    refine .pass (asks.recorded log) step ?_
    have later := ih (log ++ [.line line simulation.current decision] ++
      [.step line simulation.current reached.machine])
    simpa [Passage.events, Passage.after, Observer.recorded] using later

end Simulation

end AsmLab
