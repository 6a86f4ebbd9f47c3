import AsmLab.Proofs.Run.History
import AsmLab.Run.Batch
import AsmLab.Run.View

/-! A simulation with two vectors, one for the machines that it went through and one for the registers
that its steps used. Both grow and shrink at their ends, in the same places, so that every call comes to
what it comes to with the one trail of steps. -/
namespace AsmLab

structure SplitSimulation where
  program : Program
  /-- Every machine, the initial one first. It is never empty. -/
  history : List Machine
  /-- The registers that were used to reach the machine at the next position. -/
  usage : List (List Gpr)
  fault : Option Fault
  limits : RunLimits

namespace SplitSimulation

def startingFrom (program : Program) (initial : Machine) (limits : RunLimits) : SplitSimulation :=
  ⟨program, [initial], [], none, limits⟩

variable (simulation : SplitSimulation)

def current : Machine :=
  simulation.history.getLastD (.initial simulation.limits.stackBase)

def isFinished : Bool :=
  simulation.current.isFinished simulation.program.length

def push (machine : Machine) (used : List Gpr) : SplitSimulation :=
  { simulation with
    history := simulation.history ++ [machine]
    usage := simulation.usage ++ [used] }

def stepForward : Except Fault StepOutcome × SplitSimulation :=
  if simulation.isFinished then (.ok .finished, simulation)
  else
    match simulation.program.line? simulation.current.rip with
    | none => (.ok .finished, simulation)
    | some line =>
      let evaluated := do
        let next ← line.evaluate simulation.current simulation.program.labels
        Simulation.checkReturn line next simulation.program.length
      match evaluated with
      | .ok next => (.ok .stepped, { simulation.push next line.usedRegisters with fault := none })
      | .error fault => (.error fault, { simulation with fault := some fault })

def skipLine : SplitSimulation :=
  simulation.push simulation.current.advance.countStep []

def stepBackward : Bool × SplitSimulation :=
  if simulation.history.length ≤ 1 then (false, simulation)
  else
    (true, { simulation with
      history := simulation.history.dropLast
      usage := simulation.usage.dropLast
      fault := none })

theorem stepBackward_push (nonempty : simulation.history ≠ []) (machine : Machine)
    (used : List Gpr) :
    (simulation.push machine used).stepBackward = (true, { simulation with fault := none }) := by
  simp [stepBackward, push, nonempty]

def restart : SplitSimulation :=
  { simulation with history := simulation.history.take 1, usage := [], fault := none }

/-- An edit of the program leaves both vectors alone. -/
def edited (edit : Except Source.ParseError Unit × Program) : SplitSimulation :=
  match edit with
  | (.ok (), program) => { simulation with program, fault := none }
  | (.error _, program) => { simulation with program }

def removeLine (index : Nat) : SplitSimulation :=
  match simulation.program.remove index with
  | (some _, program) => { simulation with program, fault := none }
  | (none, program) => { simulation with program }

variable {State : Type} (observer : Observer State)

/-- Tells the observer of the last two machines of the history, if there are two. -/
def tellStep (line : Line) (state : State) : State :=
  match simulation.history.reverse with
  | after :: before :: _ => observer.onStep line before after state
  | _ => state

def runFor :
    Nat → Bool → SplitSimulation → State → Except Fault RunOutcome × SplitSimulation × State
  | 0, _, simulation, state =>
    (.ok (if simulation.isFinished then .finished else .stepLimit), simulation, state)
  | budget + 1, started, simulation, state =>
    let place := simulation.current.rip
    if simulation.isFinished then (.ok .finished, simulation, state)
    else if started && simulation.program.isBreakpoint place then
      (.ok (.breakpoint place), simulation, state)
    else
      match simulation.program.line? place with
      | none => (.ok .finished, simulation, state)
      | some line =>
        match observer.onLine line simulation.current state with
        | (.stop, state) => (.ok .stopped, simulation, state)
        | (.skip, state) =>
          let passed := simulation.skipLine
          runFor budget true passed (passed.tellStep observer line state)
        | (.proceed, state) =>
          match simulation.stepForward with
          | (.error fault, failed) => (.error fault, failed, state)
          | (.ok _, stepped) =>
            runFor budget true stepped (stepped.tellStep observer line state)

def run (state : State) : Except Fault RunOutcome × SplitSimulation × State :=
  match runFor observer simulation.limits.maxSteps false simulation state with
  | (.error fault, failed, state) => (.error fault, failed, observer.onFault fault state)
  | ended => ended

def runBatch (onBreak : SplitSimulation → Nat → State → State) :
    Nat → SplitSimulation → State → BatchOutcome × SplitSimulation × State
  | 0, simulation, state => (.exhausted, simulation, state)
  | runs + 1, simulation, state =>
    match simulation.run observer state with
    | (.ok .finished, simulation, state) => (.finished, simulation, state)
    | (.ok (.breakpoint line), simulation, state) =>
      runBatch onBreak runs simulation (onBreak simulation line state)
    | (.ok .stepLimit, simulation, state) => runBatch onBreak runs simulation state
    | (.ok .stopped, simulation, state) => (.stopped, simulation, state)
    | (.error fault, simulation, state) => (.fault fault, simulation, state)

def perform : Simulation.Operation → SplitSimulation
  | .stepForward => simulation.stepForward.2
  | .stepBackward => simulation.stepBackward.2
  | .restart => simulation.restart
  | .run observer state => (simulation.run observer state).2.1
  | .insertLine index text => simulation.edited (simulation.program.insert index text)
  | .replaceLine index text => simulation.edited (simulation.program.replace index text)
  | .removeLine index => simulation.removeLine index
  | .toggleBreakpoint index =>
    { simulation with program := simulation.program.toggleBreakpoint index }

/-- The rank of a register is the distance of its last use from the end of the usage. -/
def registers : List RegisterView :=
  Gpr.all.map fun register =>
    ⟨register, simulation.current.registers.get register,
      simulation.usage.reverse.findIdx? (register ∈ ·)⟩

end SplitSimulation

namespace Simulation

variable (simulation : Simulation)

/-- The two vectors that a trail stands for. -/
def split : SplitSimulation :=
  ⟨simulation.program, simulation.history, simulation.usageHistory, simulation.fault,
    simulation.limits⟩

theorem split_startingFrom (program : Program) (initial : Machine) (limits : RunLimits) :
    (startingFrom program initial limits).split = .startingFrom program initial limits :=
  rfl

theorem current_split : simulation.split.current = simulation.current := by
  have last : simulation.history = simulation.history.dropLast ++ [simulation.current] := path_eq
  rw [SplitSimulation.current, split, last, List.getLastD_concat]

theorem isFinished_split : simulation.split.isFinished = simulation.isFinished := by
  rw [SplitSimulation.isFinished, current_split]
  rfl

theorem split_record (machine : Machine) (used : List Gpr) :
    (simulation.record machine used).split = simulation.split.push machine used := by
  have grown : (simulation.record machine used).history = simulation.history ++ [machine] := path_cons
  rw [split, grown]
  simp [split, SplitSimulation.push, record, usageHistory]

theorem split_skipLine : simulation.skipLine.split = simulation.split.skipLine := by
  rw [skipLine, split_record, SplitSimulation.skipLine, current_split]

theorem stepForward_split : simulation.split.stepForward =
    (simulation.stepForward.1, simulation.stepForward.2.split) := by
  have program : simulation.split.program = simulation.program := rfl
  rw [SplitSimulation.stepForward, stepForward, isFinished_split, current_split, program]
  split
  · rfl
  · cases simulation.program.line? simulation.current.rip with
    | none => rfl
    | some line =>
      dsimp only
      generalize (line.evaluate simulation.current simulation.program.labels >>=
        (checkReturn line · simulation.program.length)) = evaluated
      cases evaluated with
      | error fault => rfl
      | ok next =>
        dsimp only
        rw [← split_record]
        rfl

theorem stepBackward_split : simulation.split.stepBackward =
    (simulation.stepBackward.1, simulation.stepBackward.2.split) := by
  obtain ⟨program, initial, trail, fault, limits⟩ := simulation
  cases trail with
  | nil => rfl
  | cons reached earlier =>
    let before : Simulation := ⟨program, initial, earlier, fault, limits⟩
    have pushed := before.split_record reached.machine reached.used
    exact (congrArg SplitSimulation.stepBackward pushed).trans
      (before.split.stepBackward_push (List.cons_ne_nil _ _) _ _)

theorem restart_split : simulation.split.restart = simulation.restart.split :=
  rfl

theorem edited_split (edit : Except Source.ParseError Unit × Program) :
    simulation.split.edited edit = (simulation.edited edit).2.split := by
  obtain ⟨result, program⟩ := edit
  cases result <;> rfl

theorem removeLine_split (index : Nat) :
    simulation.split.removeLine index = (simulation.removeLine index).2.split := by
  have program : simulation.split.program = simulation.program := rfl
  rw [SplitSimulation.removeLine, removeLine, program]
  obtain ⟨removed, program⟩ := simulation.program.remove index
  cases removed <;> rfl

theorem registers_split : simulation.split.registers = simulation.registers := by
  have latest : simulation.split.usage.reverse = simulation.trail.map Reached.used := by
    simp [split, usageHistory]
  rw [SplitSimulation.registers, current_split, latest]
  simp only [List.findIdx?_map]
  rfl

section Run

variable {State : Type} (observer : Observer State)

/-- Behind a step the last two machines are the ones before and after it. -/
theorem tellStep_passed (decision : LineDecision) (reached : Reached) (line : Line) (state : State) :
    (simulation.passed decision reached).split.tellStep observer line state =
      observer.onStep line simulation.current reached.machine state := by
  have last : simulation.history = simulation.history.dropLast ++ [simulation.current] := path_eq
  have grown : (simulation.passed decision reached).history =
      simulation.history ++ [reached.machine] := path_cons
  rw [SplitSimulation.tellStep, split, grown, last, List.reverse_concat, List.reverse_concat]

/-- A run on the two vectors has the outcome and tells the observer what a run on the trail does. The
induction is on the lines that may still be evaluated. -/
theorem runFor_split (budget : Nat) (started : Bool) (state : State) :
    simulation.split.runFor observer budget started state =
      let (result, last, final) := runFor observer budget started simulation state
      (result, last.split, final) := by
  induction budget generalizing started simulation state with
  | zero => rw [SplitSimulation.runFor, runFor, isFinished_split]
  | succ budget ih =>
    have program : simulation.split.program = simulation.program := rfl
    rw [SplitSimulation.runFor, runFor, isFinished_split, current_split, program]
    split
    · rfl
    · rename_i running
      split
      · rfl
      · cases simulation.program.line? simulation.current.rip with
        | none => rfl
        | some line =>
          dsimp only
          obtain ⟨decision, next⟩ := observer.onLine line simulation.current state
          cases decision with
          | stop => rfl
          | skip =>
            have told : simulation.skipLine.split.tellStep observer line next =
                observer.onStep line simulation.current simulation.skipLine.current next :=
              tellStep_passed simulation observer .skip ⟨_, []⟩ line next
            dsimp only
            rw [← split_skipLine, ih, told]
          | proceed =>
            dsimp only
            rw [stepForward_split]
            rcases simulation.stepForward_cases with ⟨finished, _⟩ | ⟨_, reached, _, steps⟩ |
              ⟨_, fault, _, fails⟩
            · exact absurd finished running
            · rw [steps]
              dsimp only
              rw [tellStep_passed, ih]
              rfl
            · rw [fails]

theorem run_split (state : State) :
    simulation.split.run observer state =
      let (result, last, final) := simulation.run observer state
      (result, last.split, final) := by
  have limits : simulation.split.limits = simulation.limits := rfl
  rw [SplitSimulation.run, run, limits, runFor_split]
  obtain ⟨result, last, final⟩ := runFor observer simulation.limits.maxSteps false simulation state
  cases result <;> rfl

theorem runBatch_split (onBreak : SplitSimulation → Nat → State → State) (runs : Nat)
    (state : State) :
    simulation.split.runBatch observer onBreak runs state =
      let (outcome, last, final) := runBatch observer
        (fun simulation line state => onBreak simulation.split line state) runs simulation state
      (outcome, last.split, final) := by
  induction runs generalizing simulation state with
  | zero => rfl
  | succ runs ih =>
    rw [SplitSimulation.runBatch, runBatch, run_split]
    obtain ⟨result, last, final⟩ := simulation.run observer state
    cases result with
    | error fault => rfl
    | ok outcome =>
      cases outcome with
      | finished | stopped => rfl
      | stepLimit | breakpoint => exact ih ..

end Run

/-- Every call does to the two vectors what it does to the trail. -/
theorem perform_split (operation : Operation) :
    simulation.split.perform operation = (simulation.perform operation).split := by
  cases operation with
  | stepForward => rw [SplitSimulation.perform, stepForward_split]; rfl
  | stepBackward => rw [SplitSimulation.perform, stepBackward_split]; rfl
  | restart => exact restart_split simulation
  | run observer state => rw [SplitSimulation.perform, run_split]; rfl
  | insertLine | replaceLine => exact edited_split simulation _
  | removeLine index => exact removeLine_split simulation index
  | toggleBreakpoint => rfl

/-- So do any calls, one after the other, from the start on. -/
theorem foldl_perform_split (operations : List Operation) :
    operations.foldl SplitSimulation.perform simulation.split =
      (operations.foldl perform simulation).split := by
  induction operations generalizing simulation with
  | nil => rfl
  | cons operation rest ih => rw [List.foldl_cons, perform_split, ih, List.foldl_cons]

end Simulation

end AsmLab
