import AsmLab.Proofs.Run.BatchRuns

/-! Which breakpoints a batch of bounded runs stops at. A run does not stop in front of the line where
it starts, so a breakpoint is missed when the run before it used up its bound just there. -/
namespace AsmLab

/-- A machine in front of a line with a breakpoint, and the number of steps since the machine before it
that was in front of one, or since the start. -/
structure Visit where
  distance : Nat
  line : Nat
  deriving DecidableEq, Repr

namespace Program

/-- Whether a machine is to go on at a line with a breakpoint. -/
def breaks (program : Program) (machine : Machine) : Bool :=
  !machine.isFinished program.length && program.isBreakpoint machine.rip

/-- The visits among machines of which the first is `distance` steps away. -/
def visits (program : Program) : Nat → List Machine → List Visit
  | _, [] => []
  | distance, machine :: rest =>
    if program.breaks machine then ⟨distance, machine.rip⟩ :: program.visits 1 rest
    else program.visits (distance + 1) rest

/-- The lines that bounded runs report when `taken` lines of the bound are used up. A run that has used
them all up starts anew, and so does one that has reported a line. -/
def reported (program : Program) (bound : Nat) : Nat → List Machine → List Nat
  | _, [] => []
  | taken, machine :: rest =>
    if taken = bound then program.reported bound 1 rest
    else if 0 < taken ∧ program.breaks machine = true then
      machine.rip :: program.reported bound 1 rest
    else program.reported bound (taken + 1) rest

variable {program : Program} {bound : Nat}

theorem map_line_visits (distance : Nat) (machines : List Machine) :
    (program.visits distance machines).map Visit.line =
      (machines.filter program.breaks).map Machine.rip := by
  induction machines generalizing distance with
  | nil => rfl
  | cons machine rest ih =>
    rw [visits]
    by_cases breaks : program.breaks machine = true
    · rw [if_pos breaks, List.filter_cons_of_pos breaks, List.map_cons, List.map_cons, ih]
    · rw [if_neg breaks, List.filter_cons_of_neg breaks, ih]

/-- The bound is used up at each multiple of it, counted from the latest visit. -/
theorem reported_eq {taken distance : Nat} (positive : 0 < taken) (within : taken ≤ bound)
    (same : distance ≡ taken [MOD bound]) (machines : List Machine) :
    program.reported bound taken machines =
      ((program.visits distance machines).filter fun visit => ¬ bound ∣ visit.distance).map
        Visit.line := by
  have room : 1 ≤ bound := positive.trans_le within
  -- A run counts its own lines and a visit counts from the one before, both modulo the bound.
  induction machines generalizing taken distance with
  | nil => rfl
  | cons machine rest ih =>
    rw [reported, visits]
    have divides : bound ∣ distance ↔ bound ∣ taken := same.dvd_iff dvd_rfl
    by_cases full : taken = bound
    · subst full
      have missed : taken ∣ distance := divides.mpr dvd_rfl
      rw [if_pos rfl]
      split
      · rw [List.filter_cons_of_neg (by simpa using missed)]
        exact ih Nat.one_pos room (.refl 1)
      · have afresh : distance + 1 ≡ 0 + 1 [MOD taken] := (Nat.modEq_zero_iff_dvd.mpr missed).add_right 1
        exact ih Nat.one_pos room afresh
    · have left : taken < bound := within.lt_of_ne full
      have noticed : ¬ bound ∣ distance := divides.not.mpr (Nat.not_dvd_of_pos_of_lt positive left)
      rw [if_neg full]
      by_cases breaks : program.breaks machine = true
      · rw [if_pos ⟨positive, breaks⟩, if_pos breaks, List.filter_cons_of_pos (by simpa using noticed),
          List.map_cons, ih Nat.one_pos room (.refl 1)]
      · rw [if_neg (fun both => breaks both.2), if_neg breaks]
        exact ih taken.succ_pos left (same.add_right 1)

theorem reported_start (positive : 0 < bound) (machine : Machine) (rest : List Machine) :
    program.reported bound 0 (machine :: rest) = program.reported bound 1 rest := by
  rw [reported, if_neg positive.ne, if_neg (by simp)]

end Program

namespace Simulation

variable {State : Type} {observer : Observer State} {budget runs : Nat} {started : Bool}
  {simulation last : Simulation} {state final : State} {result : Except Fault RunOutcome}
  {passages : List Passage} {told : List Event} {outcome : BatchOutcome} {lines : List Nat}

/-- Lines that a run passes are not reported. -/
theorem Course.reported_eq
    (course : Course observer budget started simulation state passages told result last final)
    {bound taken : Nat} (used : taken + budget = bound) (begun : started = true ↔ 0 < taken)
    (later : List Machine) :
    simulation.program.reported bound taken (simulation.current :: passages.map Passage.after ++ later) =
      simulation.program.reported bound (taken + passages.length) (last.current :: later) := by
  -- What the run has left of its bound and what is taken of it add up to the bound at every line.
  induction course generalizing taken with
  | ends ending =>
    rw [ending.current_eq]
    rfl
  | @pass budget started simulation _ _ _ _ _ _ reached passages _ _ asks step rest ih =>
    have further := @ih (taken + 1) (by omega) (by simp)
    have unreported : ¬ (0 < taken ∧ simulation.program.breaks simulation.current = true) := by
      rintro ⟨positive, breaks⟩
      have unmarked := asks.unmarked
      rw [begun.mpr positive, Bool.true_and] at unmarked
      simp [Program.breaks, unmarked] at breaks
    rw [List.map_cons, List.cons_append, Program.reported, if_neg (by omega), if_neg unreported]
    rw [List.length_cons, Nat.add_comm passages.length, ← Nat.add_assoc]
    exact further

section

variable (course : Course observer simulation.limits.maxSteps false simulation state passages told
  result last final)
include course

theorem Course.breaks_iff {line : Nat} : result = .ok (.breakpoint line) ↔
    last.current.rip = line ∧ passages.length ≠ simulation.limits.maxSteps ∧
      0 < passages.length ∧ simulation.program.breaks last.current = true := by
  rw [course.breakpoint_iff rfl, ← course.length_le.lt_iff_ne, Program.breaks, Bool.and_eq_true,
    Bool.not_eq_true', isFinished, course.program_eq]
  constructor
  · rintro ⟨running, begun, left, rfl, marked⟩
    exact ⟨rfl, left, begun, running, marked⟩
  · rintro ⟨rfl, left, begun, running, marked⟩
    exact ⟨running, begun, left, rfl, marked⟩

theorem Course.reported_run (later : List Machine) :
    simulation.program.reported simulation.limits.maxSteps 0
        (simulation.current :: passages.map Passage.after ++ later) =
      simulation.program.reported simulation.limits.maxSteps passages.length
        (last.current :: later) := by
  rw [course.reported_eq (Nat.zero_add _) (by simp), Nat.zero_add]

/-- A run that does not stop at a breakpoint does not report its last machine. -/
theorem Course.reported_end (elsewhere : ∀ line, result ≠ .ok (.breakpoint line)) :
    simulation.program.reported simulation.limits.maxSteps 0
      (simulation.current :: passages.map Passage.after) = [] := by
  have ended := course.reported_run []
  rw [List.append_nil] at ended
  rw [ended, Program.reported]
  split
  · rfl
  · rename_i left
    rw [if_neg fun ⟨begun, breaks⟩ =>
      elsewhere _ (course.breaks_iff.mpr ⟨rfl, left, begun, breaks⟩)]
    rfl

end

/-- The breakpoints of a batch that ends with the program are those that the bounded runs report. -/
theorem Batch.lines_eq
    (batch : Batch observer runs simulation state passages lines outcome last final)
    (halted : outcome.Halted) (positive : 0 < simulation.limits.maxSteps) :
    lines = simulation.program.reported simulation.limits.maxSteps 0
      (simulation.current :: passages.map Passage.after) := by
  induction batch with
  | exhausted | stopped => simp [BatchOutcome.Halted] at halted
  | finished course | fault course => exact (course.reported_end (by simp)).symm
  | breakpoint course _ ih =>
    have further := ih halted (course.limits_eq ▸ positive)
    rw [course.program_eq, course.limits_eq, Program.reported_start positive] at further
    obtain ⟨rfl, left, begun, breaks⟩ := course.breaks_iff.mp rfl
    rw [List.map_append, ← List.cons_append, course.reported_run, Program.reported, if_neg left,
      if_pos ⟨begun, breaks⟩, further]
  | stepLimit course _ ih =>
    have further := ih halted (course.limits_eq ▸ positive)
    rw [course.program_eq, course.limits_eq, Program.reported_start positive] at further
    obtain ⟨used, _⟩ := course.stepLimit_iff.mp rfl
    rw [List.map_append, ← List.cons_append, course.reported_run, Program.reported, if_pos used,
      further]

theorem filter_map_line_eq_iff (bound : Nat) (visits : List Visit) :
    (visits.filter fun visit => ¬ bound ∣ visit.distance).map Visit.line = visits.map Visit.line ↔
      ∀ visit ∈ visits, ¬ bound ∣ visit.distance := by
  constructor
  · intro same
    have lengths := congrArg List.length same
    rw [List.length_map, List.length_map, List.length_filter_eq_length_iff] at lengths
    simpa using lengths
  · intro noticed
    rw [List.filter_eq_self.mpr (by simpa using noticed)]

variable {program : Program} {initial : Machine} {limits : RunLimits} {events : List Event}

theorem course_of_runBatch
    (batch : runBatch observer.recorded noteBreakpoint runs simulation (state, []) =
      (outcome, last, final, events)) :
    ∃ passages, Batch observer runs simulation state passages
      (events.filterMap Event.breakpoint?) outcome last final := by
  obtain ⟨passages, lines, outcome, last, final, course⟩ :=
    exists_batch observer runs simulation state
  obtain ⟨noted, rfl, run⟩ := course.runBatch_eq []
  cases run.symm.trans batch
  exact ⟨passages, course⟩

/-- A batch that ends with the program reports the breakpoints that it goes on at, except those a
multiple of the bound away from the one before, or from the start. Where it went does not depend on
the bound. -/
theorem runBatch_breakpoints (positive : 0 < limits.maxSteps)
    (batch : runBatch observer.recorded noteBreakpoint runs (startingFrom program initial limits)
      (state, []) = (outcome, last, final, events))
    (halted : outcome.Halted) :
    let visits := program.visits 1 last.history.tail
    events.filterMap Event.breakpoint? =
        (visits.filter fun visit => ¬ limits.maxSteps ∣ visit.distance).map Visit.line ∧
      (events.filterMap Event.breakpoint? =
          (last.history.tail.filter program.breaks).map Machine.rip ↔
        ∀ visit ∈ visits, ¬ limits.maxSteps ∣ visit.distance) ∧
      ∀ otherLimits otherRuns otherOutcome otherLast otherFinal otherEvents,
        runBatch observer.recorded noteBreakpoint otherRuns
            (startingFrom program initial otherLimits) (state, []) =
          (otherOutcome, otherLast, otherFinal, otherEvents) →
        otherOutcome.Halted → otherLast.history = last.history := by
  obtain ⟨passages, course⟩ := course_of_runBatch batch
  have history : last.history = initial :: passages.map Passage.after := course.history_eq
  have told : events.filterMap Event.breakpoint? =
      ((program.visits 1 last.history.tail).filter
        fun visit => ¬ limits.maxSteps ∣ visit.distance).map Visit.line := by
    rw [course.lines_eq halted positive, history, List.tail_cons]
    exact (Program.reported_start positive _ _).trans
      (Program.reported_eq Nat.one_pos positive (.refl 1) _)
  refine ⟨told, ?_, ?_⟩
  · rw [told, ← Program.map_line_visits 1]
    exact filter_map_line_eq_iff _ _
  · intro _ _ _ _ _ _ otherBatch otherHalted
    obtain ⟨others, otherCourse⟩ := course_of_runBatch otherBatch
    obtain ⟨reaction, walk, halts⟩ := course.walk halted
    obtain ⟨otherReaction, otherWalk, otherHalts⟩ := otherCourse.walk otherHalted
    rw [history, walk.unique halts otherWalk otherHalts]
    exact otherCourse.history_eq

/-- Three moves, with a breakpoint at the second one. -/
def threeMoves : Program :=
  ((((Program.empty.edit (.push "movq $1, %rax")).edit (.push "movq $2, %rbx")).edit
    (.push "movq $3, %rcx")).edit (.toggleBreakpoint 1))

/-- The batch on the three moves with runs of some length. -/
def threeMovesBatch (bound : Nat) : BatchOutcome × Simulation × Unit × List Event :=
  runBatch (Observer.silent Unit).recorded noteBreakpoint 10
    (startingFrom threeMoves (.initial Machine.defaultStackBase) ⟨bound, Machine.defaultStackBase⟩)
    ((), [])

/-- Runs of two lines report the breakpoint, which is one step away from the start. -/
theorem runBatch_breakpoints_two :
    (threeMovesBatch 2).1.Halted ∧
      (threeMovesBatch 2).2.2.2.filterMap Event.breakpoint? = [1] := by
  have finished : (threeMovesBatch 2).1 = .finished := by decide +kernel
  have visits : threeMoves.visits 1 (threeMovesBatch 2).2.1.history.tail = [⟨1, 1⟩] := by
    decide +kernel
  rcases run : threeMovesBatch 2 with ⟨outcome, last, final, events⟩
  rw [run] at finished visits
  have halted : outcome.Halted := .inl finished
  have reports := (runBatch_breakpoints Nat.two_pos run halted).1
  rw [visits] at reports
  exact ⟨halted, reports⟩

/-- Runs of a single line do not report it, since the first of them ends just there. -/
theorem not_runBatch_breakpoints :
    ¬ ∀ (program : Program) (initial : Machine) (limits : RunLimits) (State : Type)
        (observer : Observer State) (state : State) (runs : Nat) (outcome : BatchOutcome)
        (last : Simulation) (final : State) (events : List Event),
        program.Reachable → 0 < limits.maxSteps →
        (∀ line machine state, (observer.onLine line machine state).1 ≠ .stop) →
        runBatch observer.recorded noteBreakpoint runs (startingFrom program initial limits)
          (state, []) = (outcome, last, final, events) →
        outcome.Halted →
        events.filterMap Event.breakpoint? =
          (last.history.tail.filter program.breaks).map Machine.rip := by
  intro reports
  have built : threeMoves.Reachable := .edited (.edited (.edited (.edited .start _) _) _) _
  have finished : (threeMovesBatch 1).1 = .finished := by decide +kernel
  have silent : (threeMovesBatch 1).2.2.2.filterMap Event.breakpoint? = [] := by decide +kernel
  have marked : ((threeMovesBatch 1).2.1.history.tail.filter threeMoves.breaks).map Machine.rip =
      [1] := by decide +kernel
  rcases run : threeMovesBatch 1 with ⟨outcome, last, final, events⟩
  rw [run] at finished silent marked
  have told := reports threeMoves (.initial Machine.defaultStackBase) ⟨1, Machine.defaultStackBase⟩
    Unit (.silent Unit) () 10 outcome last final events built Nat.one_pos (by simp [Observer.silent])
    run (.inl finished)
  rw [silent, marked] at told
  cases told

end Simulation

end AsmLab
