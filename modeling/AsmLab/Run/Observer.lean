import AsmLab.Run.Simulation
/-!
Bounded runs under observation. An observer sees each line before it is evaluated, where it may skip
the line or stop the run, then the machines before and after it, and a fault that ends the run.
-/
namespace AsmLab

inductive LineDecision where
  | proceed
  /-- Pass the line without evaluating it. -/
  | skip
  /-- End the run in front of the line. -/
  | stop
  deriving DecidableEq, Repr

/-- Reactions to the events of a run, with a state of their own. -/
structure Observer (State : Type) where
  onLine : Line → Machine → State → LineDecision × State
  onStep : Line → Machine → Machine → State → State
  onFault : Fault → State → State

/-- Lets everything happen. -/
def Observer.silent (State : Type) : Observer State where
  onLine _ _ state := (.proceed, state)
  onStep _ _ _ state := state
  onFault _ state := state

inductive RunOutcome where
  | finished
  /-- In front of a line with a breakpoint. -/
  | breakpoint (line : Nat)
  | stepLimit
  | stopped
  deriving DecidableEq, Repr

namespace Simulation

variable {State : Type}

/-- A run of at most `budget` more lines. A breakpoint does not count on the line where the run starts,
so `started` tells whether a line was passed before. -/
def runFor (observer : Observer State) :
    Nat → Bool → Simulation → State → Except Fault RunOutcome × Simulation × State
  | 0, _, simulation, state =>
    (.ok (if simulation.isFinished then .finished else .stepLimit), simulation, state)
  | budget + 1, started, simulation, state =>
    let before := simulation.current
    if simulation.isFinished then (.ok .finished, simulation, state)
    else if started && simulation.program.isBreakpoint before.rip then
      (.ok (.breakpoint before.rip), simulation, state)
    else
      match simulation.program.line? before.rip with
      | none => (.ok .finished, simulation, state)
      | some line =>
        match observer.onLine line before state with
        | (.stop, state) => (.ok .stopped, simulation, state)
        | (.skip, state) =>
          let passed := simulation.skipLine
          runFor observer budget true passed (observer.onStep line before passed.current state)
        | (.proceed, state) =>
          match simulation.stepForward with
          | (.error fault, failed) => (.error fault, failed, state)
          | (.ok _, stepped) =>
            runFor observer budget true stepped (observer.onStep line before stepped.current state)

/-- A run bounded by the limits of the simulation. -/
def run (simulation : Simulation) (observer : Observer State) (state : State) :
    Except Fault RunOutcome × Simulation × State :=
  match runFor observer simulation.limits.maxSteps false simulation state with
  | (.error fault, failed, state) => (.error fault, failed, observer.onFault fault state)
  | ended => ended

end Simulation

end AsmLab
