import AsmLab.Exec.Evaluate
import AsmLab.Program
/-!
A program together with the machines that it went through. Steps can be taken back, and a line that
faults leaves the history as it was.
-/
namespace AsmLab

open Source (ParseError)

structure RunLimits where
  /-- Lines that one bounded run evaluates at most. -/
  maxSteps : Nat := 100
  stackBase : Address := Machine.defaultStackBase
  deriving DecidableEq, Repr

/-- A machine that a step reached, and the registers that the step used. -/
structure Reached where
  machine : Machine
  used : List Gpr

structure Simulation where
  program : Program
  initial : Machine
  /-- What the steps reached, the latest first. -/
  trail : List Reached
  /-- The fault of the latest attempt to step. -/
  fault : Option Fault
  limits : RunLimits

inductive StepOutcome where
  | stepped
  /-- The program had already finished. -/
  | finished
  deriving DecidableEq, Repr

namespace Simulation

def startingFrom (program : Program) (initial : Machine) (limits : RunLimits) : Simulation :=
  ⟨program, initial, [], none, limits⟩

def start (program : Program) (limits : RunLimits) : Simulation :=
  startingFrom program (Machine.initial limits.stackBase) limits

def current (simulation : Simulation) : Machine :=
  (simulation.trail.head?.map Reached.machine).getD simulation.initial

/-- Every machine from the initial one to the current one. -/
def history (simulation : Simulation) : List Machine :=
  simulation.initial :: simulation.trail.reverse.map Reached.machine

/-- The registers that each step used, the first step first. -/
def usageHistory (simulation : Simulation) : List (List Gpr) :=
  simulation.trail.reverse.map Reached.used

def isFinished (simulation : Simulation) : Bool :=
  simulation.current.isFinished simulation.program.length

/-- A return below the top level has to reach a line of the program. -/
def checkReturn (line : Line) (next : Machine) (programLength : Nat) : Except Fault Machine :=
  let returns := line.instruction?.any fun instruction => instruction.mnemonic.opcode = .ret
  if returns && 0 ≤ next.callDepth && programLength ≤ next.rip then
    .error ⟨line.number, .invalidReturnAddress next.rip⟩
  else .ok next

def record (simulation : Simulation) (machine : Machine) (used : List Gpr) : Simulation :=
  { simulation with trail := ⟨machine, used⟩ :: simulation.trail }

/-- Evaluates the line at the program counter. -/
def stepForward (simulation : Simulation) : Except Fault StepOutcome × Simulation :=
  if simulation.isFinished then (.ok .finished, simulation)
  else
    match simulation.program.line? simulation.current.rip with
    | none => (.ok .finished, simulation)
    | some line =>
      let evaluated := do
        let next ← line.evaluate simulation.current simulation.program.labels
        checkReturn line next simulation.program.length
      match evaluated with
      | .ok next =>
        (.ok .stepped, { simulation.record next line.usedRegisters with fault := none })
      | .error fault => (.error fault, { simulation with fault := some fault })

/-- Passes the line at the program counter without evaluating it. -/
def skipLine (simulation : Simulation) : Simulation :=
  simulation.record simulation.current.advance.countStep []

/-- Takes the latest step back, unless there is none. -/
def stepBackward (simulation : Simulation) : Bool × Simulation :=
  match simulation.trail with
  | [] => (false, simulation)
  | _ :: earlier => (true, { simulation with trail := earlier, fault := none })

def restart (simulation : Simulation) : Simulation :=
  { simulation with trail := [], fault := none }

/-- An edit of the program. A successful one forgets the fault. -/
def edited (simulation : Simulation) (edit : Except ParseError Unit × Program) :
    Except ParseError Unit × Simulation :=
  match edit with
  | (.ok (), program) => (.ok (), { simulation with program, fault := none })
  | (.error error, program) => (.error error, { simulation with program })

def insertLine (simulation : Simulation) (index : Nat) (text : String) :
    Except ParseError Unit × Simulation :=
  simulation.edited (simulation.program.insert index text)

def replaceLine (simulation : Simulation) (index : Nat) (text : String) :
    Except ParseError Unit × Simulation :=
  simulation.edited (simulation.program.replace index text)

def removeLine (simulation : Simulation) (index : Nat) : Bool × Simulation :=
  match simulation.program.remove index with
  | (some _, program) => (true, { simulation with program, fault := none })
  | (none, program) => (false, { simulation with program })

def toggleBreakpoint (simulation : Simulation) (index : Nat) : Simulation :=
  { simulation with program := simulation.program.toggleBreakpoint index }

end Simulation

end AsmLab
