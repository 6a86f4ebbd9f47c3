import AsmLab.Proofs.Run.BatchRuns

/-! Cutting a long run into short ones. As long as no line has a breakpoint, each run goes on where the
one before it was cut off, and an observer cannot tell where the cuts were. -/
namespace AsmLab

theorem Program.isBreakpoint_eq_false {program : Program}
    (unmarked : ∀ line ∈ program.lines, line.breakpoint = false) (index : Nat) :
    program.isBreakpoint index = false := by
  rw [isBreakpoint, line?]
  cases found : program.lines[index]? with
  | none => rfl
  | some line => exact unmarked line (List.mem_of_getElem? found)

/-- A batch comes back with what a single run comes back with. -/
structure BatchOutcome.Agrees (outcome : BatchOutcome) (result : Except Fault RunOutcome) : Prop where
  finished : outcome = .finished ↔ result = .ok .finished
  stopped : outcome = .stopped ↔ result = .ok .stopped
  fault (fault : Fault) : outcome = .fault fault ↔ result = .error fault
  exhausted : outcome = .exhausted ↔ result = .ok .stepLimit

theorem BatchOutcome.Agrees.unique {outcome other : BatchOutcome} {result : Except Fault RunOutcome}
    (agrees : outcome.Agrees result) (second : other.Agrees result) : outcome = other := by
  cases outcome with
  | finished => exact (second.finished.mpr (agrees.finished.mp rfl)).symm
  | stopped => exact (second.stopped.mpr (agrees.stopped.mp rfl)).symm
  | fault fault => exact ((second.fault fault).mpr ((agrees.fault fault).mp rfl)).symm
  | exhausted => exact (second.exhausted.mpr (agrees.exhausted.mp rfl)).symm

namespace Simulation

/-- The same simulation with runs of another length. -/
def bounded (simulation : Simulation) (bound : Nat) : Simulation :=
  { simulation with limits := { simulation.limits with maxSteps := bound } }

theorem bounded_eq_self {simulation : Simulation} {bound : Nat}
    (same : simulation.limits.maxSteps = bound) : simulation.bounded bound = simulation := by
  subst same
  rfl

variable {State : Type} {observer : Observer State} {budget extra runs : Nat} {started : Bool}
  {simulation middle last : Simulation} {state reaction final : State}
  {result : Except Fault RunOutcome} {passages later : List Passage} {told : List Event}
  {outcome : BatchOutcome} {lines : List Nat}

namespace Course

/-- The limits that a simulation carries do not matter to a run with a budget of its own. -/
theorem bounded
    (course : Course observer budget started simulation state passages told result last final)
    (bound : Nat) :
    Course observer budget started (simulation.bounded bound) state passages told result
      (last.bounded bound) final := by
  induction course with
  | ends ending =>
    cases ending with
    | finished ended => exact .ends (.finished ended)
    | stepLimit running spent => exact .ends (.stepLimit running spent)
    | breakpoint running left marked => exact .ends (.breakpoint running left marked)
    | stopped left asks =>
      exact .ends (.stopped left ⟨asks.running, asks.unmarked, asks.found, asks.answer⟩)
    | fault left asks fails =>
      exact .ends (.fault left ⟨asks.running, asks.unmarked, asks.found, asks.answer⟩ fails)
  | pass asks step _ ih =>
    exact .pass ⟨asks.running, asks.unmarked, asks.found, asks.answer⟩ step ih

/-- A run that ends within its budget does not need more. -/
theorem extend
    (course : Course observer budget started simulation state passages told result last final)
    (ended : result ≠ .ok .stepLimit) {larger : Nat} (within : budget ≤ larger) :
    Course observer larger started simulation state passages told result last final := by
  induction course generalizing larger with
  | ends ending =>
    cases ending with
    | finished reached => exact .ends (.finished reached)
    | stepLimit => exact absurd rfl ended
    | breakpoint running left marked =>
      exact .ends (.breakpoint running (left.trans_le within) marked)
    | stopped left asks => exact .ends (.stopped (left.trans_le within) asks)
    | fault left asks fails => exact .ends (.fault (left.trans_le within) asks fails)
  | pass asks step _ ih =>
    obtain ⟨larger, rfl⟩ := Nat.exists_eq_add_of_lt within
    exact .pass asks step (ih ended (Nat.le_add_right _ larger))

/-- Without breakpoints it does not matter whether a run has passed a line before. -/
theorem anew
    (course : Course observer budget started simulation state passages told result last final)
    (unmarked : ∀ index, simulation.program.isBreakpoint index = false) (again : Bool) :
    Course observer budget again simulation state passages told result last final := by
  have free : (again && simulation.program.isBreakpoint simulation.current.rip) = false := by
    rw [unmarked, Bool.and_false]
  cases course with
  | ends ending =>
    cases ending with
    | finished ended => exact .ends (.finished ended)
    | stepLimit running spent => exact .ends (.stepLimit running spent)
    | breakpoint _ _ marked => simp [unmarked] at marked
    | stopped left asks => exact .ends (.stopped left ⟨asks.running, free, asks.found, asks.answer⟩)
    | fault left asks fails =>
      exact .ends (.fault left ⟨asks.running, free, asks.found, asks.answer⟩ fails)
  | pass asks step rest => exact .pass ⟨asks.running, free, asks.found, asks.answer⟩ step rest

/-- A run that uses up its budget, and a run from there on, are one run with both budgets. -/
theorem append
    (course : Course observer budget started simulation state passages told (.ok .stepLimit) middle
      reaction)
    (unmarked : ∀ index, simulation.program.isBreakpoint index = false) {more : List Event}
    (rest : Course observer extra false middle reaction later more result last final) :
    Course observer (budget + extra) started simulation state (passages ++ later) more result last
      final := by
  generalize cut : (Except.ok RunOutcome.stepLimit : Except Fault RunOutcome) = first at course
  induction course with
  | ends ending =>
    subst cut
    cases ending with
    | stepLimit _ spent =>
      rw [spent, Nat.zero_add]
      exact rest.anew unmarked _
  | pass asks step _ ih =>
    rw [Nat.add_right_comm]
    exact .pass asks step (ih unmarked rest cut)

end Course

/-- Without breakpoints the runs of a batch are a single run. -/
theorem Batch.course
    (batch : Batch observer runs simulation state passages lines outcome last final)
    (unmarked : ∀ index, simulation.program.isBreakpoint index = false) (positive : 0 < runs) :
    ∃ told result reaction, outcome.Agrees result ∧ lines = [] ∧
      hearFault observer result reaction = final ∧
      Course observer (simulation.limits.maxSteps * runs) false simulation state passages told result
        last reaction := by
  induction batch with
  | exhausted => cases positive
  | finished course =>
    exact ⟨_, .ok .finished, _, by constructor <;> simp, rfl, rfl,
      course.extend nofun (Nat.le_mul_of_pos_right _ positive)⟩
  | stopped course =>
    exact ⟨_, .ok .stopped, _, by constructor <;> simp, rfl, rfl,
      course.extend nofun (Nat.le_mul_of_pos_right _ positive)⟩
  | @fault _ _ _ _ _ _ _ fault course =>
    exact ⟨_, .error fault, _, by constructor <;> simp [eq_comm], rfl, rfl,
      course.extend nofun (Nat.le_mul_of_pos_right _ positive)⟩
  | @breakpoint _ line _ _ _ _ _ _ _ _ _ _ _ course =>
    obtain ⟨_, _, _, _, marked⟩ := (course.breakpoint_iff rfl line).mp rfl
    simp [unmarked] at marked
  | @stepLimit runs _ middle _ _ _ _ _ _ _ _ _ course rest ih =>
    rcases runs.eq_zero_or_pos with none | more
    · subst none
      cases rest
      rw [List.append_nil, Nat.zero_add, Nat.mul_one]
      exact ⟨_, .ok .stepLimit, _, by constructor <;> simp, rfl, rfl, course⟩
    · have free : ∀ index, middle.program.isBreakpoint index = false := by
        rwa [course.program_eq]
      obtain ⟨told, result, reaction, agrees, unbroken, heard, joined⟩ := ih free more
      rw [course.limits_eq] at joined
      refine ⟨told, result, reaction, agrees, unbroken, heard, ?_⟩
      rw [Nat.mul_succ, Nat.add_comm]
      exact course.append unmarked joined

/-- Who waits for breakpoints only is not called by a batch that reaches none. -/
theorem Batch.runBatch_unbroken
    (batch : Batch observer runs simulation state passages lines outcome last final)
    (unbroken : lines = []) (onBreak : Simulation → Nat → State → State) :
    runBatch observer onBreak runs simulation state = (outcome, last, final) := by
  induction batch with
  | exhausted => rfl
  | finished course | stopped course | fault course =>
    rw [runBatch, course.run_eq]
    rfl
  | breakpoint => cases unbroken
  | stepLimit course _ ih =>
    rw [runBatch, course.run_eq]
    exact ih unbroken

/-- Without breakpoints a batch of bounded runs does what a single run with all their lines does. -/
theorem runBatch_joined (simulation : Simulation) (observer : Observer State)
    (onBreak : Simulation → Nat → State → State)
    (unmarked : ∀ line ∈ simulation.program.lines, line.breakpoint = false) (bound : Nat)
    (positive : 0 < runs) (state : State) :
    ∃ outcome result last final, outcome.Agrees result ∧
      runBatch observer onBreak runs (simulation.bounded bound) state =
        (outcome, last.bounded bound, final) ∧
      (simulation.bounded (bound * runs)).run observer state = (result, last, final) := by
  obtain ⟨passages, lines, outcome, last, final, batch⟩ :=
    exists_batch observer runs (simulation.bounded bound) state
  obtain ⟨told, result, reaction, agrees, unbroken, rfl, course⟩ :=
    batch.course (Program.isBreakpoint_eq_false unmarked) positive
  refine ⟨outcome, result, last.bounded (bound * runs), hearFault observer result reaction, agrees,
    ?_, ?_⟩
  · have same : last.bounded bound = last :=
      bounded_eq_self (congrArg RunLimits.maxSteps course.limits_eq)
    exact (batch.runBatch_unbroken unbroken onBreak).trans (by rw [← same]; rfl)
  · exact (course.bounded (bound * runs)).run_eq

/-- The observer is told the same in the same order, and no breakpoint is told of in between. -/
theorem runBatch_eq_run (simulation : Simulation) (observer : Observer State)
    (unmarked : ∀ line ∈ simulation.program.lines, line.breakpoint = false) (bound : Nat)
    (positive : 0 < runs) (state : State) (onBreak : Simulation → Nat → State → State) :
    ∃ outcome result last final events, outcome.Agrees result ∧
      runBatch observer onBreak runs (simulation.bounded bound) state =
        (outcome, last.bounded bound, final) ∧
      (simulation.bounded (bound * runs)).run observer state = (result, last, final) ∧
      runBatch observer.recorded noteBreakpoint runs (simulation.bounded bound) (state, []) =
        (outcome, last.bounded bound, final, events) ∧
      (simulation.bounded (bound * runs)).run observer.recorded (state, []) =
        (result, last, final, events) := by
  obtain ⟨outcome, result, last, final, agrees, batch, run⟩ :=
    simulation.runBatch_joined observer onBreak unmarked bound positive state
  obtain ⟨other, same, there, reaction, fits, noted, recorded⟩ :=
    simulation.runBatch_joined observer.recorded noteBreakpoint unmarked bound positive (state, [])
  obtain ⟨_, events, _, _, _, plain, notes, -⟩ :=
    (simulation.bounded (bound * runs)).run_ran observer state
  cases plain.symm.trans run
  cases notes.symm.trans recorded
  obtain rfl := agrees.unique fits
  exact ⟨outcome, result, last, final, events, agrees, batch, run, noted, recorded⟩

/-- Two runs of one line each finish a program of two lines, just as one run of two lines does. -/
theorem runBatch_eq_run_finished :
    let program := (Program.empty.edit (.push "movq $1, %rax")).edit (.push "movq $2, %rbx")
    let simulation := startingFrom program (.initial Machine.defaultStackBase) {}
    let observer := Observer.silent Unit
    (∀ line ∈ program.lines, line.breakpoint = false) ∧ ∃ last events,
      runBatch observer.recorded noteBreakpoint 2 (simulation.bounded 1) ((), []) =
        (.finished, last.bounded 1, (), events) ∧
      (simulation.bounded 2).run observer.recorded ((), []) = (.ok .finished, last, (), events) := by
  intro program simulation observer
  have unmarked : ∀ line ∈ program.lines, line.breakpoint = false := by decide +kernel
  have finishes : ((simulation.bounded 2).run observer ()).1 = .ok .finished := by decide +kernel
  obtain ⟨outcome, result, last, final, events, agrees, -, run, noted, recorded⟩ :=
    simulation.runBatch_eq_run observer unmarked 1 Nat.two_pos () fun _ _ _ => ()
  obtain rfl : result = .ok .finished := (congrArg Prod.fst run).symm.trans finishes
  obtain rfl := agrees.finished.mpr rfl
  exact ⟨unmarked, last, events, noted, recorded⟩

end Simulation

end AsmLab
