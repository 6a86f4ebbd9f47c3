import AsmLab.Proofs.Run.Course

/-! Exactly what one bounded run does: the machines that it adds to the history, everything that the
observer is told, in order, and the outcome that it comes back with. -/
namespace AsmLab.Simulation

variable {State : Type} {observer : Observer State} {budget : Nat} {started : Bool}
  {simulation last : Simulation} {state final : State} {result : Except Fault RunOutcome}
  {passages : List Passage} {told : List Event}

/-- The calls at the end of a run, in front of the line at the counter. -/
inductive Closing (program : Program) (machine : Machine) :
    Except Fault RunOutcome → List Event → Prop where
  | quiet {outcome : RunOutcome} (unasked : outcome ≠ .stopped) :
      Closing program machine (.ok outcome) []
  | stopped {line : Line} (found : program.line? machine.rip = some line) :
      Closing program machine (.ok .stopped) [.line line machine .stop]
  | fault {line : Line} {fault : Fault} (fails : program.Fails machine line fault) :
      Closing program machine (.error fault) [.line line machine .proceed]

namespace Ending

variable (ending : Ending observer budget started simulation state result told last final)
include ending

/-- The run ends where it stands. Only the latest fault may be new. -/
theorem same : last = { simulation with fault := last.fault } := by
  cases ending with
  | fault => rfl
  | finished | stepLimit | breakpoint | stopped => rfl

theorem current_eq : last.current = simulation.current := by
  rw [ending.same]
  rfl

theorem finished_iff : result = .ok .finished ↔ last.isFinished = true := by
  cases ending with
  | finished ended => exact iff_of_true rfl ended
  | stepLimit running => exact iff_of_false nofun (Bool.eq_false_iff.mp running)
  | breakpoint running => exact iff_of_false nofun (Bool.eq_false_iff.mp running)
  | stopped _ asks => exact iff_of_false nofun (Bool.eq_false_iff.mp asks.running)
  | fault _ asks => exact iff_of_false nofun (Bool.eq_false_iff.mp asks.running)

theorem stepLimit_iff : result = .ok .stepLimit ↔ budget = 0 ∧ last.isFinished = false := by
  cases ending with
  | finished ended => exact iff_of_false nofun fun spent => by simp [ended] at spent
  | stepLimit running spent => exact iff_of_true rfl ⟨spent, running⟩
  | breakpoint _ left => exact iff_of_false nofun fun spent => left.ne' spent.1
  | stopped left => exact iff_of_false nofun fun spent => left.ne' spent.1
  | fault left => exact iff_of_false nofun fun spent => left.ne' spent.1

theorem breakpoint_iff {line : Nat} :
    result = .ok (.breakpoint line) ↔ last.isFinished = false ∧ 0 < budget ∧ started = true ∧
      last.current.rip = line ∧ last.program.isBreakpoint line = true := by
  cases ending with
  | finished ended => exact iff_of_false nofun fun breaks => by simp [ended] at breaks
  | stepLimit _ spent => exact iff_of_false nofun fun breaks => by simp [spent] at breaks
  | breakpoint running left marked =>
    obtain ⟨started, marked⟩ := Bool.and_eq_true_iff.mp marked
    constructor
    · intro same
      cases same
      exact ⟨running, left, started, rfl, marked⟩
    · rintro ⟨_, _, _, rfl, _⟩
      rfl
  | stopped _ asks =>
    refine iff_of_false nofun ?_
    rintro ⟨_, _, rfl, rfl, marked⟩
    exact absurd marked (Bool.eq_false_iff.mp asks.unmarked)
  | fault _ asks =>
    refine iff_of_false nofun ?_
    rintro ⟨_, _, rfl, rfl, marked⟩
    exact absurd marked (Bool.eq_false_iff.mp asks.unmarked)

theorem closing : Closing simulation.program simulation.current result told := by
  cases ending with
  | finished | stepLimit | breakpoint => exact .quiet nofun
  | stopped _ asks => exact .stopped asks.found
  | fault _ _ fails => exact .fault fails

end Ending

namespace Course

variable (course : Course observer budget started simulation state passages told result last final)

/-- What every step and every fault preserves, a run preserves. -/
theorem preserves {Holds : Simulation → Prop}
    (course : Course observer budget started simulation state passages told result last final)
    (passed : ∀ {simulation : Simulation} {decision : LineDecision} {line : Line}
      {reached : Reached}, simulation.program.Step simulation.current decision line reached →
        Holds simulation → Holds (simulation.passed decision reached))
    (failed : ∀ {simulation : Simulation} {line : Line} {fault : Fault},
      simulation.program.Fails simulation.current line fault →
        Holds simulation → Holds (simulation.failed fault))
    (holds : Holds simulation) : Holds last := by
  induction course with
  | ends ending =>
    cases ending with
    | finished | stepLimit | breakpoint | stopped => exact holds
    | fault _ _ fails => exact failed fails holds
  | pass _ step _ ih => exact ih (passed step holds)

include course

/-- A run changes neither the program nor what the simulation was set up with. -/
theorem setup : last.program = simulation.program ∧ last.initial = simulation.initial ∧
    last.limits = simulation.limits := by
  induction course with
  | ends ending =>
    rw [ending.same]
    exact ⟨rfl, rfl, rfl⟩
  | pass _ _ _ ih => exact ih

theorem program_eq : last.program = simulation.program :=
  course.setup.1

theorem limits_eq : last.limits = simulation.limits :=
  course.setup.2.2

theorem trail_eq : last.trail = (passages.map Passage.reached).reverse ++ simulation.trail := by
  induction course with
  | ends ending =>
    rw [ending.same]
    rfl
  | pass _ _ _ ih => simpa [passed] using ih

theorem history_eq : last.history = simulation.history ++ passages.map Passage.after := by
  simp [history, course.setup.2.1, course.trail_eq, Passage.after]

theorem usageHistory_eq : last.usageHistory =
    simulation.usageHistory ++ passages.map fun passage => passage.reached.used := by
  simp [usageHistory, course.trail_eq]

theorem length_le : passages.length ≤ budget := by
  induction course with
  | ends => exact Nat.zero_le _
  | pass _ _ _ ih => exact Nat.succ_le_succ ih

/-- Each line is passed from where the line before it led to. -/
theorem consecutive : passages.map Passage.before ++ [last.current] =
    simulation.current :: passages.map Passage.after := by
  induction course with
  | ends ending => rw [ending.current_eq]; rfl
  | pass _ _ _ ih => simpa [Passage.after] using ih

theorem steps : ∀ passage ∈ passages,
    simulation.program.Step passage.before passage.decision passage.line passage.reached := by
  induction course with
  | ends => exact List.forall_mem_nil _
  | pass _ step _ ih => exact List.forall_mem_cons.mpr ⟨step, ih⟩

theorem unmarked_of_started (running : started = true) :
    ∀ passage ∈ passages, simulation.program.isBreakpoint passage.before.rip = false := by
  induction course with
  | ends => exact List.forall_mem_nil _
  | pass asks _ _ ih =>
    refine List.forall_mem_cons.mpr ⟨?_, ih rfl⟩
    simpa [running] using asks.unmarked

/-- Only the line where the run starts may be passed although it has a breakpoint. -/
theorem unmarked :
    ∀ passage ∈ passages.tail, simulation.program.isBreakpoint passage.before.rip = false := by
  cases course with
  | ends => exact List.forall_mem_nil _
  | pass _ _ rest => exact rest.unmarked_of_started rfl

/-- The end of a run, with the budget that its lines left. -/
theorem ending : ∃ (there : Simulation) (reaction : State),
    Ending observer (budget - passages.length) (started || !passages.isEmpty) there reaction
      result told last final := by
  induction course with
  | ends ending => exact ⟨_, _, by simpa using ending⟩
  | pass _ _ _ ih =>
    obtain ⟨there, reaction, ending⟩ := ih
    exact ⟨there, reaction, by simpa using ending⟩

theorem finished_iff : result = .ok .finished ↔ last.isFinished = true := by
  obtain ⟨there, reaction, ending⟩ := course.ending
  exact ending.finished_iff

theorem stepLimit_iff :
    result = .ok .stepLimit ↔ passages.length = budget ∧ last.isFinished = false := by
  obtain ⟨there, reaction, ending⟩ := course.ending
  rw [ending.stepLimit_iff, Nat.sub_eq_zero_iff_le]
  exact and_congr_left fun _ => ⟨course.length_le.antisymm, ge_of_eq⟩

/-- A run stops at the first breakpoint behind its first line, unless its bound is used up there. -/
theorem breakpoint_iff (fresh : started = false) (line : Nat) : result = .ok (.breakpoint line) ↔
    last.isFinished = false ∧ 1 ≤ passages.length ∧ passages.length < budget ∧
      last.current.rip = line ∧ simulation.program.isBreakpoint line = true := by
  obtain ⟨there, reaction, ending⟩ := course.ending
  have begun : (started || !passages.isEmpty) = true ↔ 1 ≤ passages.length := by
    cases passages <;> simp [fresh]
  rw [ending.breakpoint_iff, course.program_eq, begun, Nat.sub_pos_iff_lt]
  exact and_congr_right fun _ => and_left_comm

theorem closing : Closing simulation.program last.current result told := by
  obtain ⟨there, reaction, ending⟩ := course.ending
  rw [← course.program_eq, ending.same]
  exact ending.closing

/-- A line that was passed is not one where the observer stopped the run. -/
theorem not_stop (line : Line) (machine : Machine) :
    Event.line line machine .stop ∉ passages.flatMap Passage.events := by
  intro member
  obtain ⟨passage, passed, member⟩ := List.mem_flatMap.mp member
  have step := course.steps passage passed
  have stops : passage.decision = .stop := by
    have parts : line = passage.line ∧ machine = passage.before ∧ .stop = passage.decision := by
      simpa [Passage.events] using member
    exact parts.2.2.symm
  rw [stops] at step
  cases step

end Course

/-- What the observer hears of a fault. -/
def faultEvents : Except Fault RunOutcome → List Event
  | .error fault => [.fault fault]
  | .ok _ => []

/-- A bounded run that passes lines, tells events to the observer and ends with a result. -/
structure Ran (simulation : Simulation) (passages : List Passage) (events : List Event)
    (result : Except Fault RunOutcome) (last : Simulation) : Prop where
  program : last.program = simulation.program
  history : last.history = simulation.history ++ passages.map Passage.after
  usage : last.usageHistory =
    simulation.usageHistory ++ passages.map fun passage => passage.reached.used
  bounded : passages.length ≤ simulation.limits.maxSteps
  /-- The first line is passed from the present machine, and each other one from where the line before
  it led to. -/
  consecutive : passages.map Passage.before ++ [last.current] =
    simulation.current :: passages.map Passage.after
  steps : ∀ passage ∈ passages,
    simulation.program.Step passage.before passage.decision passage.line passage.reached
  /-- For every line that is passed a question and a report, then what belongs to the end. -/
  told : ∃ closing, Closing simulation.program last.current result closing ∧
    events = passages.flatMap Passage.events ++ closing ++ faultEvents result
  finished : result = .ok .finished ↔ last.isFinished = true
  breakpoint (line : Nat) : result = .ok (.breakpoint line) ↔
    last.isFinished = false ∧ 1 ≤ passages.length ∧
      passages.length < simulation.limits.maxSteps ∧
      last.current.rip = line ∧ simulation.program.isBreakpoint line = true
  stepLimit : result = .ok .stepLimit ↔
    passages.length = simulation.limits.maxSteps ∧ last.isFinished = false
  stopped : result = .ok .stopped ↔ ∃ line, Event.line line last.current .stop ∈ events
  unmarked : ∀ passage ∈ passages.tail,
    simulation.program.isBreakpoint passage.before.rip = false

/-- The observer after the end of a run, when it has heard of a fault. -/
def hearFault (observer : Observer State) : Except Fault RunOutcome → State → State
  | .error fault, state => observer.onFault fault state
  | .ok _, state => state

theorem Course.run_eq
    (course : Course observer simulation.limits.maxSteps false simulation state passages told result
      last final) :
    simulation.run observer state = (result, last, hearFault observer result final) := by
  unfold run
  rw [course.runFor_eq]
  cases result <;> rfl

/-- The observer that notes what it is told adds the events of the run to its notes. -/
theorem Course.run_recorded
    (course : Course observer simulation.limits.maxSteps false simulation state passages told result
      last final) (log : List Event) :
    simulation.run observer.recorded (state, log) = (result, last, hearFault observer result final,
      log ++ (passages.flatMap Passage.events ++ told ++ faultEvents result)) := by
  rw [(course.recorded log).run_eq]
  cases result <;> simp [hearFault, Observer.recorded, faultEvents]

theorem Closing.stopped_iff {program : Program} {machine : Machine}
    (closing : Closing program machine result told) :
    result = .ok .stopped ↔ ∃ line, Event.line line machine .stop ∈ told := by
  cases closing with
  | quiet unasked => simpa using unasked
  | stopped => simp
  | fault => simp

/-- A bounded run, and what its observer is told, is as described for every simulation, every
observer and every bound. -/
theorem run_ran (simulation : Simulation) (observer : Observer State) (state : State) :
    ∃ passages events result last final,
      simulation.run observer state = (result, last, final) ∧
      simulation.run observer.recorded (state, []) = (result, last, final, events) ∧
      simulation.Ran passages events result last := by
  obtain ⟨passages, told, result, last, final, course⟩ :=
    exists_course observer simulation.limits.maxSteps false simulation state
  refine ⟨passages, passages.flatMap Passage.events ++ told ++ faultEvents result, result, last,
    _, course.run_eq, course.run_recorded [], course.program_eq, course.history_eq,
    course.usageHistory_eq, course.length_le, course.consecutive, course.steps,
    ⟨told, course.closing, rfl⟩, course.finished_iff, course.breakpoint_iff rfl,
    course.stepLimit_iff, ?_, course.unmarked⟩
  rw [course.closing.stopped_iff]
  constructor
  · rintro ⟨line, member⟩
    exact ⟨line, by simp [member]⟩
  · rintro ⟨line, member⟩
    refine ⟨line, ?_⟩
    rcases List.mem_append.mp member with earlier | report
    · exact (List.mem_append.mp earlier).resolve_left (course.not_stop line _)
    · cases result <;> simp [faultEvents] at report

end AsmLab.Simulation
