import AsmLab.Proofs.Run.BoundedRun
import AsmLab.Report.Trace

/-! Skipping a line is the same as having no instruction there. A run that is told to skip some lines
and a run of the program with these lines blanked go through the same machines, although one passes the
lines by itself and the other one evaluates them. -/
namespace AsmLab

/-- Takes the instruction out of a line that is to be skipped. -/
def Line.blanked (skipped : Nat → Bool) (line : Line) : Line :=
  if skipped line.number && line.instruction?.isSome then
    { line with statement := .blank, comment := none }
  else line

namespace Line

variable {skipped : Nat → Bool} {line : Line}

theorem instruction?_blanked (skips : skipped line.number = true) :
    (line.blanked skipped).instruction? = none := by
  rw [blanked, skips, Bool.true_and]
  split
  · rfl
  · rename_i empty
    exact Option.not_isSome_iff_eq_none.mp empty

theorem blanked_eq_self (kept : skipped line.number = false) : line.blanked skipped = line := by
  rw [blanked, kept, Bool.false_and]
  rfl

theorem breakpoint_blanked (skipped : Nat → Bool) (line : Line) :
    (line.blanked skipped).breakpoint = line.breakpoint := by
  rw [blanked]
  split <;> rfl

end Line

namespace LineDecision

/-- What is decided about a line when some are to be skipped. -/
def skipping (skipped : Nat → Bool) (line : Line) : LineDecision :=
  if skipped line.number then .skip else .proceed

variable {skipped : Nat → Bool} {line : Line}

theorem skipping_of_skipped (skips : skipped line.number = true) : skipping skipped line = .skip :=
  if_pos skips

theorem skipping_of_kept (kept : skipped line.number = false) : skipping skipped line = .proceed :=
  if_neg (Bool.eq_false_iff.mp kept)

theorem skipping_ne_stop : skipping skipped line ≠ .stop := by
  rw [skipping]
  split <;> nofun

theorem kept_of_skipping (proceeds : skipping skipped line = .proceed) :
    skipped line.number = false := by
  by_contra skips
  rw [skipping_of_skipped (Bool.eq_true_of_not_eq_false skips)] at proceeds
  cases proceeds

end LineDecision

namespace Program

/-- The program with no instruction on the lines to be skipped, and the same labels. -/
def blanked (skipped : Nat → Bool) (program : Program) : Program :=
  { program with lines := program.lines.map (Line.blanked skipped) }

variable {skipped : Nat → Bool} {program : Program} {machine : Machine} {line : Line}

@[simp]
theorem length_blanked : (program.blanked skipped).length = program.length :=
  List.length_map _

theorem line?_blanked (index : Nat) :
    (program.blanked skipped).line? index = (program.line? index).map (Line.blanked skipped) :=
  List.getElem?_map

@[simp]
theorem isBreakpoint_blanked (index : Nat) :
    (program.blanked skipped).isBreakpoint index = program.isBreakpoint index := by
  rw [isBreakpoint, line?_blanked, isBreakpoint]
  cases program.line? index with
  | none => rfl
  | some line => exact line.breakpoint_blanked skipped

/-- The blanked program takes the step of a skipped line by evaluating what is left of it. -/
theorem Step.blanked {reached : Reached}
    (step : program.Step machine (.skipping skipped line) line reached) :
    (program.blanked skipped).Step machine .proceed (line.blanked skipped) reached := by
  have running : machine.isFinished (program.blanked skipped).length = false := by
    rw [length_blanked]
    exact step.running
  have found : (program.blanked skipped).line? machine.rip = some (line.blanked skipped) := by
    rw [line?_blanked, step.found]
    rfl
  cases skips : skipped line.number with
  | true =>
    have empty := line.instruction?_blanked skips
    rw [LineDecision.skipping_of_skipped skips] at step
    cases step
    have evaluates : (line.blanked skipped).evaluate machine (program.blanked skipped).labels =
        .ok machine.advance.countStep := by
      rw [Line.evaluate, empty]
    have unused : (line.blanked skipped).usedRegisters = [] := by
      rw [Line.usedRegisters, empty]
      rfl
    rw [← unused]
    refine .evaluated running found evaluates ?_
    rw [Simulation.checkReturn, empty]
    rfl
  | false =>
    rw [LineDecision.skipping_of_kept skips] at step
    cases step with
    | evaluated _ _ evaluates returns =>
      rw [Line.blanked_eq_self skips] at found ⊢
      rw [← @length_blanked skipped] at returns
      exact .evaluated running found evaluates returns

theorem Fails.blanked {fault : Fault} (fails : program.Fails machine line fault)
    (kept : skipped line.number = false) :
    (program.blanked skipped).Fails machine (line.blanked skipped) fault := by
  have running : machine.isFinished (program.blanked skipped).length = false := by
    rw [length_blanked]
    exact fails.running
  have found : (program.blanked skipped).line? machine.rip = some line := by
    rw [line?_blanked, fails.found, Option.map_some, Line.blanked_eq_self kept]
  rw [Line.blanked_eq_self kept]
  cases fails with
  | evaluation _ _ fails => exact .evaluation running found fails
  | returning _ _ evaluates fails =>
    rw [← @length_blanked skipped] at fails
    exact .returning running found evaluates fails

end Program

/-- One observer skips some lines and the other one none, and what they see keeps their states related
when the lines are blanked for the other one. -/
structure Observer.Blanks {State Other : Type} (skipped : Nat → Bool) (observer : Observer State)
    (other : Observer Other) (Related : State → Other → Prop) : Prop where
  skips (line : Line) (machine : Machine) (state : State) :
    (observer.onLine line machine state).1 = .skipping skipped line
  proceeds (line : Line) (machine : Machine) (state : Other) :
    (other.onLine line machine state).1 = .proceed
  onLine (line : Line) (machine : Machine) {state : State} {otherState : Other} :
    Related state otherState → Related (observer.onLine line machine state).2
      (other.onLine (line.blanked skipped) machine otherState).2
  onStep (line : Line) (before after : Machine) {state : State} {otherState : Other} :
    Related state otherState → Related (observer.onStep line before after state)
      (other.onStep (line.blanked skipped) before after otherState)
  onFault (fault : Fault) {state : State} {otherState : Other} :
    Related state otherState →
      Related (observer.onFault fault state) (other.onFault fault otherState)

namespace Simulation

/-- The simulation with the lines to be skipped blanked. Its history is the same. -/
def blanked (skipped : Nat → Bool) (simulation : Simulation) : Simulation :=
  { simulation with program := simulation.program.blanked skipped }

variable {State Other : Type} {skipped : Nat → Bool} {observer : Observer State}
  {other : Observer Other} {Related : State → Other → Prop}
  {budget : Nat} {started : Bool} {simulation last : Simulation} {state final : State}
  {otherState : Other} {result : Except Fault RunOutcome} {passages : List Passage}
  {told : List Event}

theorem isFinished_blanked : (simulation.blanked skipped).isFinished = simulation.isFinished :=
  congrArg simulation.current.isFinished Program.length_blanked

theorem Asks.blanked (blanks : observer.Blanks skipped other Related) {line : Line}
    {decision : LineDecision} {next : State}
    (asks : simulation.Asks observer started state line decision next)
    (related : Related state otherState) :
    decision = .skipping skipped line ∧ ∃ otherNext, Related next otherNext ∧
      (simulation.blanked skipped).Asks other started otherState (line.blanked skipped) .proceed
        otherNext := by
  obtain ⟨running, unmarked, found, answer⟩ := asks
  have decides := blanks.skips line simulation.current state
  have later := blanks.onLine line simulation.current related
  rw [answer] at decides later
  refine ⟨decides, _, later, ?_, ?_, ?_, ?_⟩
  · exact isFinished_blanked.trans running
  · rw [← unmarked]
    exact congrArg (started && ·) (Program.isBreakpoint_blanked _)
  · exact (Program.line?_blanked _).trans (congrArg _ found)
  · exact Prod.ext (blanks.proceeds _ _ _) rfl

/-- The run of the blanked program passes the same machines. -/
theorem Course.blanked (blanks : observer.Blanks skipped other Related)
    (course : Course observer budget started simulation state passages told result last final)
    (unfaulted : simulation.fault = none) (related : Related state otherState) :
    ∃ otherPassages otherTold otherFinal,
      Course other budget started (simulation.blanked skipped) otherState otherPassages otherTold
        result (last.blanked skipped) otherFinal ∧
      Related final otherFinal ∧ ∀ outcome, result = .ok outcome → last.fault = none := by
  induction course generalizing otherState with
  | @ends _ started simulation _ _ _ _ _ ending =>
    cases ending with
    | finished ended =>
      exact ⟨_, _, _, .ends (.finished (isFinished_blanked.trans ended)), related, fun _ _ => unfaulted⟩
    | stepLimit running spent =>
      exact ⟨_, _, _, .ends (.stepLimit (isFinished_blanked.trans running) spent), related,
        fun _ _ => unfaulted⟩
    | breakpoint running left marked =>
      have again : (started && (simulation.blanked skipped).program.isBreakpoint
          simulation.current.rip) = true :=
        (congrArg (started && ·) (Program.isBreakpoint_blanked _)).trans marked
      exact ⟨_, _, _, .ends (.breakpoint (isFinished_blanked.trans running) left again), related,
        fun _ _ => unfaulted⟩
    | stopped left asks =>
      obtain ⟨stops, -⟩ := asks.blanked blanks related
      exact absurd stops.symm LineDecision.skipping_ne_stop
    | @fault line _ _ left asks fails =>
      obtain ⟨proceeds, otherNext, later, asked⟩ := asks.blanked blanks related
      have kept : skipped line.number = false := LineDecision.kept_of_skipping proceeds.symm
      exact ⟨_, _, _, .ends (.fault left asked (fails.blanked kept)), later, nofun⟩
  | @pass _ _ simulation _ _ _ _ line decision reached _ _ _ asks step rest ih =>
    obtain ⟨rfl, otherNext, later, asked⟩ := asks.blanked blanks related
    have cleared : (simulation.passed (.skipping skipped line) reached).fault = none := by
      rw [passed, unfaulted, ite_self]
    obtain ⟨_, _, otherFinal, course, ended, quiet⟩ :=
      ih cleared (blanks.onStep line simulation.current reached.machine later)
    have same : (simulation.passed (.skipping skipped line) reached).blanked skipped =
        (simulation.blanked skipped).passed .proceed reached := by
      rw [passed, unfaulted, ite_self]
      rfl
    rw [same] at course
    exact ⟨_, _, _, .pass asked step.blanked course, ended, quiet⟩

theorem run_blanked (blanks : observer.Blanks skipped other Related)
    (unfaulted : simulation.fault = none) (related : Related state otherState) :
    ∃ result last final otherFinal,
      simulation.run observer state = (result, last, final) ∧
      (simulation.blanked skipped).run other otherState =
        (result, last.blanked skipped, otherFinal) ∧
      Related final otherFinal ∧ ∀ outcome, result = .ok outcome → last.fault = none := by
  obtain ⟨passages, told, result, last, final, course⟩ :=
    exists_course observer simulation.limits.maxSteps false simulation state
  obtain ⟨_, _, otherFinal, otherCourse, ended, quiet⟩ := course.blanked blanks unfaulted related
  refine ⟨result, last, _, _, course.run_eq, otherCourse.run_eq, ?_, quiet⟩
  cases result with
  | ok outcome => exact ended
  | error fault => exact blanks.onFault fault ended

/-- Batches of the two programs come to the same end and are told of the same breakpoints. -/
theorem runBatch_blanked (blanks : observer.Blanks skipped other Related)
    {onBreak : Simulation → Nat → State → State} {otherBreak : Simulation → Nat → Other → Other}
    (breaks : ∀ simulation line {state otherState}, Related state otherState →
      Related (onBreak simulation line state)
        (otherBreak (simulation.blanked skipped) line otherState))
    (runs : Nat) (unfaulted : simulation.fault = none) (related : Related state otherState) :
    ∃ outcome last final otherFinal,
      runBatch observer onBreak runs simulation state = (outcome, last, final) ∧
      runBatch other otherBreak runs (simulation.blanked skipped) otherState =
        (outcome, last.blanked skipped, otherFinal) ∧
      Related final otherFinal := by
  induction runs generalizing simulation state otherState with
  | zero => exact ⟨.exhausted, simulation, state, otherState, rfl, rfl, related⟩
  | succ runs ih =>
    obtain ⟨result, last, final, otherFinal, run, otherRun, ended, quiet⟩ :=
      run_blanked blanks unfaulted related
    rw [runBatch, run, runBatch, otherRun]
    cases result with
    | error fault => exact ⟨_, _, _, _, rfl, rfl, ended⟩
    | ok outcome =>
      have unfaulted := quiet outcome rfl
      cases outcome with
      | finished | stopped => exact ⟨_, _, _, _, rfl, rfl, ended⟩
      | stepLimit => exact ih unfaulted ended
      | breakpoint line => exact ih unfaulted (breaks last line ended)

end Simulation

namespace Observer

/-- The same observer next to something that it does not touch. -/
def beside {State : Type} (observer : Observer State) (Extra : Type) : Observer (State × Extra) where
  onLine line machine state :=
    let (decision, next) := observer.onLine line machine state.1
    (decision, next, state.2)
  onStep line before after state := (observer.onStep line before after state.1, state.2)
  onFault fault state := (observer.onFault fault state.1, state.2)

theorem Blanks.beside {State Other Extra : Type} {skipped : Nat → Bool} {observer : Observer State}
    {other : Observer Other} {Related : State → Other → Prop}
    (blanks : observer.Blanks skipped other Related) (Paired : Extra → Extra → Prop) :
    (observer.beside Extra).Blanks skipped (other.beside Extra) fun state otherState =>
      Related state.1 otherState.1 ∧ Paired state.2 otherState.2 where
  skips line machine state := blanks.skips line machine state.1
  proceeds line machine state := blanks.proceeds line machine state.1
  onLine line machine _ _ related := ⟨blanks.onLine line machine related.1, related.2⟩
  onStep line before after _ _ related := ⟨blanks.onStep line before after related.1, related.2⟩
  onFault fault _ _ related := ⟨blanks.onFault fault related.1, related.2⟩

end Observer

namespace Simulation

/-- Adds a breakpoint, and the simulation that stopped there, to a list of them. -/
def noteCall {State : Type} (simulation : Simulation) (line : Nat)
    (state : State × List (Nat × Simulation)) : State × List (Nat × Simulation) :=
  (state.1, state.2 ++ [(line, simulation)])

/-- The same call with the lines to be skipped blanked. -/
def blankedCall (skipped : Nat → Bool) (call : Nat × Simulation) : Nat × Simulation :=
  (call.1, call.2.blanked skipped)

theorem noteCall_blanked {State Other : Type} {skipped : Nat → Bool} (simulation : Simulation)
    (line : Nat) {state : State × List (Nat × Simulation)} {other : Other × List (Nat × Simulation)}
    (same : other.2 = state.2.map (blankedCall skipped)) :
    ((simulation.blanked skipped).noteCall line other).2 =
      (simulation.noteCall line state).2.map (blankedCall skipped) := by
  simp [noteCall, blankedCall, same]

end Simulation

namespace Tracer

theorem isSkipped_empty (enabled coloured : Bool) (line : Nat) :
    isSkipped ⟨enabled, coloured, ∅⟩ line = false := by
  simp [isSkipped]

/-- What the tracers write differs, but not what they decide. -/
theorem observer_blanks (tracer : Tracer) (enabled coloured : Bool) :
    tracer.observer.Blanks tracer.isSkipped (observer ⟨enabled, coloured, ∅⟩)
      fun _ _ => True where
  skips _ _ _ := rfl
  proceeds line _ _ := by
    have kept := isSkipped_empty enabled coloured line.number
    simp [observer, onLine, kept]
  onLine _ _ _ _ _ := trivial
  onStep _ _ _ _ _ _ := trivial
  onFault _ _ _ _ := trivial

/-- A batch whose tracer skips lines comes to the same end as the batch of the blanked program whose
tracer has no actions, through the same machines and past the same breakpoints. -/
theorem runBatch_skipped (tracer : Tracer) (enabled coloured : Bool) (program : Program)
    (initial : Machine) (limits : RunLimits) (runs : Nat) (transcript otherTranscript : Transcript) :
    ∃ outcome last final otherFinal calls,
      Simulation.runBatch (tracer.observer.beside _) Simulation.noteCall runs
          (.startingFrom program initial limits) (transcript, []) =
        (outcome, last, final, calls) ∧
      Simulation.runBatch ((observer ⟨enabled, coloured, ∅⟩).beside _) Simulation.noteCall runs
          (.startingFrom (program.blanked tracer.isSkipped) initial limits) (otherTranscript, []) =
        (outcome, last.blanked tracer.isSkipped, otherFinal,
          calls.map (Simulation.blankedCall tracer.isSkipped)) := by
  let Paired (calls others : List (Nat × Simulation)) : Prop :=
    others = calls.map (Simulation.blankedCall tracer.isSkipped)
  have blanks := (tracer.observer_blanks enabled coloured).beside Paired
  let simulation := Simulation.startingFrom program initial limits
  have unfaulted : simulation.fault = none := rfl
  have fresh : True ∧ Paired (transcript, []).2 (otherTranscript, []).2 := ⟨trivial, rfl⟩
  obtain ⟨outcome, last, ⟨final, calls⟩, ⟨otherFinal, others⟩, run, otherRun, -, same⟩ :=
    Simulation.runBatch_blanked blanks
      (fun simulation line _ _ related => ⟨trivial, simulation.noteCall_blanked line related.2⟩)
      runs unfaulted fresh
  subst same
  exact ⟨outcome, last, final, otherFinal, calls, run, otherRun⟩

end Tracer

end AsmLab
