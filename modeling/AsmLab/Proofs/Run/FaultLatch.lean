import AsmLab.Proofs.Run.History

/-! What the latest fault of a simulation says about it. A fault is kept until a step is evaluated or
taken back, until a restart or an edit. A skipped line keeps it too, and then the fault belongs to an
earlier line than the one that is next. -/
namespace AsmLab.Simulation

/-- The line behind some skipped ones faults. -/
inductive Latched (program : Program) (initial : Machine) (fault : Fault) :
    Nat → List Reached → Prop where
  | raised {trail : List Reached} {line : Line}
      (fails : program.Fails (latest initial trail) line fault) :
      Latched program initial fault 0 trail
  | skipped {count : Nat} {trail : List Reached} {line : Line} {reached : Reached}
      (earlier : Latched program initial fault count trail)
      (step : program.Step (latest initial trail) .skip line reached) :
      Latched program initial fault (count + 1) (reached :: trail)

namespace Latched

variable {program : Program} {initial : Machine} {fault : Fault} {count : Nat}
  {trail : List Reached} (latched : Latched program initial fault count trail)
include latched

theorem toggleBreakpoint (index : Nat) :
    Latched (program.toggleBreakpoint index) initial fault count trail := by
  induction latched with
  | raised fails =>
    obtain ⟨line, fails⟩ := fails.toggleBreakpoint index
    exact .raised fails
  | skipped _ step ih =>
    obtain ⟨line, step⟩ := step.toggleBreakpoint index
    exact .skipped ih step

/-- Each skipped line takes the counter one further away from the line of the fault. -/
theorem rip_eq (consistent : program.Consistent) :
    (latest initial trail).rip = fault.line + count := by
  induction latched with
  | raised fails =>
    rw [fails.line_eq, Nat.add_zero]
    exact (consistent.numbers _ _ fails.found).symm
  | skipped _ step ih =>
    cases step with
    | skipped => exact congrArg (· + 1) ih

end Latched

/-- The fault of a simulation was raised in front of the lines skipped since. -/
def FaultLatched (simulation : Simulation) : Prop :=
  ∀ fault, simulation.fault = some fault →
    ∃ count, Latched simulation.program simulation.initial fault count simulation.trail

theorem faultLatched_of_none {simulation : Simulation} (quiet : simulation.fault = none) :
    simulation.FaultLatched := by
  intro fault raised
  rw [quiet] at raised
  cases raised

theorem faultLatched_preserved : Preserved fun _ simulation => simulation.FaultLatched where
  passed := by
    rintro _ simulation decision line reached kept step fault raised
    cases step with
    | evaluated => cases raised
    | skipped running found =>
      obtain ⟨count, latched⟩ := kept fault raised
      exact ⟨count + 1, latched.skipped (.skipped running found)⟩
  failed := by
    intro _ simulation line fault _ fails latest same
    obtain rfl := Option.some.inj same
    exact ⟨0, .raised fails⟩
  takenBack _ _ := faultLatched_of_none rfl
  restarted _ := faultLatched_of_none rfl
  edited _ _ := faultLatched_of_none rfl
  toggled := by
    rintro _ simulation index kept fault raised
    obtain ⟨count, latched⟩ := kept fault raised
    exact ⟨count, latched.toggleBreakpoint index⟩

variable {program : Program} {initial : Machine} {limits : RunLimits} {edited : Bool}
  {simulation : Simulation} {fault : Fault}

/-- A step forward raises faults of the current line only. -/
theorem rip_of_stepForward (consistent : simulation.program.Consistent)
    (fails : simulation.stepForward.1 = .error fault) : simulation.current.rip = fault.line := by
  rcases simulation.stepForward_cases with ⟨_, same⟩ | ⟨_, _, _, same⟩ | ⟨line, raised, cause, same⟩
  · rw [same] at fails
    cases fails
  · rw [same] at fails
    cases fails
  · rw [same] at fails
    obtain rfl := Except.error.inj fails
    rw [cause.line_eq]
    exact (consistent.numbers _ _ cause.found).symm

/-- The latest fault describes the current line, and is raised again by it, exactly if no line was
skipped since it was raised. -/
theorem Reachable.latched (built : program.Reachable)
    (reached : Reachable program initial limits edited simulation)
    (raised : simulation.fault = some fault) :
    ∃ count, Latched simulation.program simulation.initial fault count simulation.trail ∧
      simulation.current.rip = fault.line + count ∧
      ((simulation.isFinished = false ∧ simulation.stepForward = (.error fault, simulation)) ↔
        count = 0) := by
  have consistent := (reached.program_sound built.sound).toConsistent
  have kept : simulation.FaultLatched :=
    reached.holds built.sound faultLatched_preserved (faultLatched_of_none rfl)
  obtain ⟨count, latched⟩ := kept fault raised
  have place : simulation.current.rip = fault.line + count := latched.rip_eq consistent
  refine ⟨count, latched, place, ?_⟩
  constructor
  · rintro ⟨_, again⟩
    have same := rip_of_stepForward consistent (congrArg Prod.fst again)
    omega
  · rintro rfl
    cases latched with
    | raised fails =>
      refine ⟨fails.running, ?_⟩
      rw [stepForward_fails fails, failed, ← raised]

/-- A division by zero that has just been tried. -/
theorem latched_division :
    let program := (Program.empty.edit (.push "idivq %rcx")).edit (.push "movq $1, %rax")
    let simulation :=
      (startingFrom program (.initial Machine.defaultStackBase) {}).perform .stepForward
    simulation.fault = some ⟨0, .divisionByZero⟩ ∧ simulation.isFinished = false ∧
      simulation.stepForward = (.error ⟨0, .divisionByZero⟩, simulation) := by
  intro program simulation
  have built : program.Reachable := .edited (.edited .start _) _
  have fresh : Reachable program (.initial Machine.defaultStackBase) {} false _ := .start
  have raised : simulation.fault = some ⟨0, .divisionByZero⟩ := by decide +kernel
  obtain ⟨count, _, place, repeats⟩ := (fresh.performed .stepForward).latched built raised
  have first : simulation.current.rip = 0 := by decide +kernel
  have unskipped : count = 0 := by simpa using place.symm.trans first
  exact ⟨raised, repeats.mpr unskipped⟩

/-- Skips the first line and stops at every other one. -/
def firstSkipped : Observer Unit where
  onLine line _ _ := (if line.number = 0 then .skip else .stop, ())
  onStep _ _ _ _ := ()
  onFault _ _ := ()

/-- The fault of a line that was skipped afterwards is kept, although the next line does not fault. -/
theorem not_latched_repeats :
    ¬ ∀ (program : Program) (initial : Machine) (limits : RunLimits) (edited : Bool)
        (simulation : Simulation) (fault : Fault), program.Reachable →
        Reachable program initial limits edited simulation → simulation.fault = some fault →
          simulation.isFinished = false ∧
            simulation.stepForward = (.error fault, simulation) := by
  intro repeats
  let program := (Program.empty.edit (.push "idivq %rcx")).edit (.push "movq $1, %rax")
  have built : program.Reachable := .edited (.edited .start _) _
  have fresh : Reachable program (.initial Machine.defaultStackBase) {} false _ := .start
  have reached := (fresh.performed .stepForward).performed (.run firstSkipped ())
  obtain ⟨_, again⟩ := repeats _ _ _ _ _ ⟨0, .divisionByZero⟩ built reached (by decide +kernel)
  have same := rip_of_stepForward (reached.program_sound built.sound).toConsistent
    (congrArg Prod.fst again)
  revert same
  decide +kernel

end AsmLab.Simulation
