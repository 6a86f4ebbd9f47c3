import AsmLab.Proofs.Exec.Control
import AsmLab.Proofs.Program.Editing
import AsmLab.Run.Observer

/-! One step of a simulation. The line at the program counter is evaluated or skipped, or it faults;
a step that is taken adds one machine to the history. -/
namespace AsmLab

theorem Machine.running_iff {machine : Machine} {length : Nat} :
    machine.isFinished length = false ↔ machine.rip < length ∧ 0 ≤ machine.callDepth := by
  simp [isFinished]

theorem Simulation.checkReturn_ok {line : Line} {next after : Machine} {length : Nat}
    (returns : checkReturn line next length = .ok after) : after = next := by
  unfold checkReturn at returns
  simp only at returns
  split at returns
  · cases returns
  · exact (Except.ok.inj returns).symm

theorem Simulation.checkReturn_bound {line : Line} {next after : Machine} {length : Nat}
    {body : Instruction LabelRef} (found : line.instruction? = some body)
    (returns : body.mnemonic.opcode = .ret) (inside : 0 ≤ next.callDepth)
    (checked : checkReturn line next length = .ok after) : next.rip < length := by
  by_contra outside
  have beyond : length ≤ next.rip := Nat.le_of_not_lt outside
  simp [checkReturn, found, returns, inside, beyond] at checked

theorem Program.Consistent.line?_lt {program : Program} (consistent : program.Consistent)
    {id : LabelId} {line : Nat} (defined : program.labels.line? id = some line) :
    line < program.length := by
  obtain ⟨definition, placed, _⟩ := (consistent.definitions id line).mp defined
  exact (List.getElem?_eq_some_iff.mp placed).1

namespace Program

variable {program : Program} {machine : Machine}

/-- The program passes the line at the counter of a running machine, which is evaluated or skipped. -/
inductive Step (program : Program) (machine : Machine) : LineDecision → Line → Reached → Prop where
  | evaluated {line : Line} {next : Machine}
      (running : machine.isFinished program.length = false)
      (found : program.line? machine.rip = some line)
      (evaluates : line.evaluate machine program.labels = .ok next)
      (returns : Simulation.checkReturn line next program.length = .ok next) :
      Step program machine .proceed line ⟨next, line.usedRegisters⟩
  | skipped {line : Line} (running : machine.isFinished program.length = false)
      (found : program.line? machine.rip = some line) :
      Step program machine .skip line ⟨machine.advance.countStep, []⟩

/-- The line at the counter of a running machine faults, by itself or for where it returns to. -/
inductive Fails (program : Program) (machine : Machine) (line : Line) (fault : Fault) : Prop where
  | evaluation (running : machine.isFinished program.length = false)
      (found : program.line? machine.rip = some line)
      (fails : line.evaluate machine program.labels = .error fault)
  | returning {next : Machine} (running : machine.isFinished program.length = false)
      (found : program.line? machine.rip = some line)
      (evaluates : line.evaluate machine program.labels = .ok next)
      (fails : Simulation.checkReturn line next program.length = .error fault)

theorem exists_line (running : machine.isFinished program.length = false) :
    ∃ line, program.line? machine.rip = some line :=
  ⟨_, List.getElem?_eq_getElem (Machine.running_iff.mp running).1⟩

theorem Fails.running {line : Line} {fault : Fault} (fails : program.Fails machine line fault) :
    machine.isFinished program.length = false := by
  cases fails with
  | evaluation running => exact running
  | returning running => exact running

theorem Fails.found {line : Line} {fault : Fault} (fails : program.Fails machine line fault) :
    program.line? machine.rip = some line := by
  cases fails with
  | evaluation _ found => exact found
  | returning _ found => exact found

theorem Fails.line_eq {line : Line} {fault : Fault} (fails : program.Fails machine line fault) :
    fault.line = line.number := by
  cases fails with
  | evaluation _ _ fails =>
    unfold Line.evaluate at fails
    split at fails
    · cases fails
    · split at fails
      · cases fails
      · cases fails
        rfl
  | returning _ _ _ fails =>
    unfold Simulation.checkReturn at fails
    simp only at fails
    split at fails
    · cases fails
      rfl
    · cases fails

namespace Step

variable {decision : LineDecision} {line : Line} {reached : Reached}
  (step : program.Step machine decision line reached)

include step

theorem running : machine.isFinished program.length = false := by
  cases step with
  | evaluated running => exact running
  | skipped running => exact running

theorem found : program.line? machine.rip = some line := by
  cases step with
  | evaluated _ found => exact found
  | skipped _ found => exact found

theorem unique {other : Reached} {otherLine : Line}
    (second : program.Step machine decision otherLine other) : line = otherLine ∧ reached = other := by
  have same : line = otherLine := Option.some.inj (step.found.symm.trans second.found)
  subst same
  refine ⟨rfl, ?_⟩
  cases step with
  | evaluated _ _ evaluates _ =>
    cases second with
    | evaluated _ _ again _ => rw [Except.ok.inj (evaluates.symm.trans again)]
  | skipped _ _ =>
    cases second
    rfl

theorem not_fails (proceeds : decision = .proceed) {otherLine : Line} {fault : Fault} :
    ¬ program.Fails machine otherLine fault := by
  intro fails
  obtain rfl := Option.some.inj (fails.found.symm.trans step.found)
  cases step with
  | skipped => cases proceeds
  | evaluated _ _ evaluates returns =>
    cases fails with
    | evaluation _ _ fails =>
      rw [evaluates] at fails
      cases fails
    | returning _ _ again fails =>
      obtain rfl := Except.ok.inj (evaluates.symm.trans again)
      rw [returns] at fails
      cases fails

theorem frame : reached.machine.step = machine.step + 1 ∧
    reached.machine.stackBase = machine.stackBase ∧
      machine.callDepth - 1 ≤ reached.machine.callDepth := by
  cases step with
  | evaluated _ _ evaluates => exact line.evaluate_frame evaluates
  | skipped => exact ⟨rfl, rfl, Int.sub_le_self _ Int.one_nonneg⟩

theorem inside : 0 ≤ machine.callDepth :=
  (Machine.running_iff.mp step.running).2

/-- No step leads further than just behind the last line. -/
theorem rip_le (sound : program.Sound) : reached.machine.rip ≤ program.length := by
  have before := (Machine.running_iff.mp step.running).1
  cases step with
  | skipped => exact before
  | evaluated running found evaluates returns =>
    rcases line.evaluate_transfers evaluates with control | ⟨body, next, holds, transfers, rfl⟩
    · exact (congrArg Control.rip control).trans_le before
    · cases transfers with
      | next _ _ control => exact (congrArg Control.rip control).trans_le before
      | branch taken target control =>
        have wellFormed := sound.wellFormed line (List.mem_of_getElem? found)
        have matched := (wellFormed.instruction holds).matched
        obtain ⟨label, shape⟩ := Instruction.exists_target matched taken
        have defined := sound.line?_lt (Instruction.target_ok shape target)
        exact (congrArg Control.rip control).trans_le defined.le
      -- The line that a return finds on the stack can be any number, but below the top level it is
      -- checked. At the top level it is not looked at.
      | leave isReturn called target control =>
        have depth : next.callDepth = machine.callDepth - 1 := congrArg Control.callDepth control
        have inside : 0 ≤ next.countStep.callDepth := depth.symm ▸ Int.sub_nonneg_of_le called
        exact (Simulation.checkReturn_bound holds isReturn inside returns).le
      | finish _ _ control => exact (congrArg Control.rip control).trans_le before.le

end Step

variable (program) in
theorem exists_line_toggleBreakpoint (index : Nat) {position : Nat} {line : Line}
    (found : program.line? position = some line) :
    ∃ breakpoint, (program.toggleBreakpoint index).line? position = some { line with breakpoint } := by
  have placed : (program.toggleBreakpoint index).line? position = _ :=
    List.getElem?_modify _ index program.lines position
  rw [← line?, found] at placed
  by_cases same : index = position
  · exact ⟨!line.breakpoint, by simpa [same] using placed⟩
  · exact ⟨line.breakpoint, by simpa [same] using placed⟩

theorem length_toggleBreakpoint (index : Nat) :
    (program.toggleBreakpoint index).length = program.length := by
  rw [length, toggleBreakpoint, modifyLine, List.length_modify, length]

/-- A breakpoint does not change what a line does. -/
theorem Step.toggleBreakpoint {decision : LineDecision} {line : Line} {reached : Reached}
    (step : program.Step machine decision line reached) (index : Nat) :
    ∃ other, (program.toggleBreakpoint index).Step machine decision other reached := by
  obtain ⟨breakpoint, found⟩ := program.exists_line_toggleBreakpoint index step.found
  have running := step.running
  rw [← length_toggleBreakpoint index] at running
  refine ⟨{ line with breakpoint }, ?_⟩
  cases step with
  | evaluated _ _ evaluates returns =>
    rw [← length_toggleBreakpoint index] at returns
    exact .evaluated running found evaluates returns
  | skipped => exact .skipped running found

theorem Fails.toggleBreakpoint {line : Line} {fault : Fault}
    (fails : program.Fails machine line fault) (index : Nat) :
    ∃ other, (program.toggleBreakpoint index).Fails machine other fault := by
  obtain ⟨breakpoint, found⟩ := program.exists_line_toggleBreakpoint index fails.found
  have running := fails.running
  rw [← length_toggleBreakpoint index] at running
  refine ⟨{ line with breakpoint }, ?_⟩
  cases fails with
  | evaluation _ _ fails => exact .evaluation running found fails
  | returning _ _ evaluates fails =>
    rw [← length_toggleBreakpoint index] at fails
    exact .returning running found evaluates fails

/-- A line that is not skipped is evaluated or faults. -/
theorem step_or_fails {line : Line} (running : machine.isFinished program.length = false)
    (found : program.line? machine.rip = some line) :
    (∃ reached, program.Step machine .proceed line reached) ∨
      ∃ fault, program.Fails machine line fault := by
  cases evaluates : line.evaluate machine program.labels with
  | error fault => exact .inr ⟨fault, .evaluation running found evaluates⟩
  | ok next =>
    cases returns : Simulation.checkReturn line next program.length with
    | error fault => exact .inr ⟨fault, .returning running found evaluates returns⟩
    | ok same =>
      obtain rfl := Simulation.checkReturn_ok returns
      exact .inl ⟨_, .evaluated running found evaluates returns⟩

end Program

namespace Simulation

variable {simulation : Simulation} {decision : LineDecision} {line : Line} {reached : Reached}
  {fault : Fault}

/-- The simulation after a step. A skipped line leaves the latest fault in place. -/
def passed (simulation : Simulation) (decision : LineDecision) (reached : Reached) : Simulation :=
  { simulation with
    trail := reached :: simulation.trail
    fault := if decision = .skip then simulation.fault else none }

/-- The simulation after a fault. -/
def failed (simulation : Simulation) (fault : Fault) : Simulation :=
  { simulation with fault := some fault }

@[simp]
theorem current_passed : (simulation.passed decision reached).current = reached.machine := rfl

theorem stepForward_finished (ended : simulation.isFinished = true) :
    simulation.stepForward = (.ok .finished, simulation) := by
  rw [stepForward, if_pos ended]

theorem stepForward_step
    (step : simulation.program.Step simulation.current .proceed line reached) :
    simulation.stepForward = (.ok .stepped, simulation.passed .proceed reached) := by
  cases step with
  | evaluated running found evaluates returns =>
    have unfinished : simulation.isFinished = false := running
    simp only [stepForward, unfinished, found, evaluates, bind, Except.bind, returns]
    rfl

theorem stepForward_fails (fails : simulation.program.Fails simulation.current line fault) :
    simulation.stepForward = (.error fault, simulation.failed fault) := by
  have unfinished : simulation.isFinished = false := fails.running
  cases fails with
  | evaluation _ found fails =>
    simp only [stepForward, unfinished, found, fails, bind, Except.bind]
    rfl
  | returning _ found evaluates fails =>
    simp only [stepForward, unfinished, found, evaluates, bind, Except.bind, fails]
    rfl

/-- A step forward finds the program finished, passes the current line or faults. -/
theorem stepForward_cases (simulation : Simulation) :
    simulation.isFinished = true ∧ simulation.stepForward = (.ok .finished, simulation) ∨
      (∃ line reached, simulation.program.Step simulation.current .proceed line reached ∧
        simulation.stepForward = (.ok .stepped, simulation.passed .proceed reached)) ∨
      ∃ line fault, simulation.program.Fails simulation.current line fault ∧
        simulation.stepForward = (.error fault, simulation.failed fault) := by
  cases running : simulation.isFinished with
  | true => exact .inl ⟨rfl, stepForward_finished running⟩
  | false =>
    obtain ⟨line, found⟩ := Program.exists_line running
    rcases Program.step_or_fails running found with ⟨reached, step⟩ | ⟨fault, fails⟩
    · exact .inr (.inl ⟨line, reached, step, stepForward_step step⟩)
    · exact .inr (.inr ⟨line, fault, fails, stepForward_fails fails⟩)

end Simulation

end AsmLab
