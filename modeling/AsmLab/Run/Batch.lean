import AsmLab.Run.Observer
/-!
Bounded runs one after the other, until the program ends or the runs are used up.
-/
namespace AsmLab

inductive BatchOutcome where
  | finished
  | fault (fault : Fault)
  | stopped
  /-- All runs went by and the program had not finished. -/
  | exhausted
  deriving DecidableEq, Repr

/-- The outcome in the words of a report. -/
def BatchOutcome.text : BatchOutcome → String
  | .finished => "finished"
  | .fault raised => "fault: " ++ raised.message
  | .stopped => "stopped"
  | .exhausted => "run limit reached"

/-- Runs at most `runs` times and tells `onBreak` about every breakpoint that is reached. -/
def Simulation.runBatch {State : Type} (observer : Observer State)
    (onBreak : Simulation → Nat → State → State) :
    Nat → Simulation → State → BatchOutcome × Simulation × State
  | 0, simulation, state => (.exhausted, simulation, state)
  | runs + 1, simulation, state =>
    match simulation.run observer state with
    | (.ok .finished, simulation, state) => (.finished, simulation, state)
    | (.ok (.breakpoint line), simulation, state) =>
      runBatch observer onBreak runs simulation (onBreak simulation line state)
    | (.ok .stepLimit, simulation, state) => runBatch observer onBreak runs simulation state
    | (.ok .stopped, simulation, state) => (.stopped, simulation, state)
    | (.error fault, simulation, state) => (.fault fault, simulation, state)

end AsmLab
