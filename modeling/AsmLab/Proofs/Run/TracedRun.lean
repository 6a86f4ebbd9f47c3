import AsmLab.Proofs.Run.RowText
import AsmLab.Proofs.Run.SkippedLines

/-! The trace as a record of a whole batch. Its rows stand for the steps of instructions, and the changes
that are read from their texts lead from the initial registers and flags to the final ones: whatever is
counted and not shown changes neither. -/
namespace AsmLab

namespace RegisterFile

/-- Makes changes one after the other. Each has to say what its register holds at that moment. -/
def replay (file : RegisterFile) : List (Gpr × BitVec 64 × BitVec 64) → Option RegisterFile
  | [] => some file
  | (register, old, new) :: rest =>
    if file.get register = old then (file.set register new).replay rest else none

theorem replay_append (file : RegisterFile) (changes later : List (Gpr × BitVec 64 × BitVec 64)) :
    file.replay (changes ++ later) = (file.replay changes).bind (·.replay later) := by
  induction changes generalizing file with
  | nil => rfl
  | cons change rest ih =>
    obtain ⟨register, old, new⟩ := change
    simp only [List.cons_append, replay]
    split
    · exact ih _
    · rfl

theorem ext_get {file other : RegisterFile}
    (same : ∀ register, file.get register = other.get register) : file = other := by
  have listed : ∀ index : Fin 16, ∃ register ∈ Gpr.all, register.index = index := by decide
  obtain ⟨slots⟩ := file
  obtain ⟨others⟩ := other
  congr 1
  ext1 index inside
  obtain ⟨register, -, placed⟩ := listed ⟨index, inside⟩
  simpa [get, placed] using same register

/-- The changes of some registers lead from one file to another that differs in no other register. -/
theorem replay_differences {registers : List Gpr} (distinct : registers.Nodup)
    {file before after : RegisterFile}
    (unchanged : ∀ register ∈ registers, file.get register = before.get register)
    (changed : ∀ register ∉ registers, file.get register = after.get register) :
    file.replay (registers.filterMap fun register =>
      if before.get register = after.get register then none
      else some (register, before.get register, after.get register)) = some after := by
  induction registers generalizing file with
  | nil => exact congrArg some (ext_get fun register => changed register List.not_mem_nil)
  | cons register rest ih =>
    obtain ⟨fresh, distinct⟩ := List.nodup_cons.mp distinct
    have here := unchanged register List.mem_cons_self
    rw [List.filterMap_cons]
    by_cases same : before.get register = after.get register
    · simp only [if_pos same]
      refine ih distinct (fun other member => unchanged other (List.mem_cons_of_mem _ member)) ?_
      intro other outside
      by_cases this : other = register
      · rw [this, here, same]
      · exact changed other (by simp [this, outside])
    · simp only [if_neg same, replay, if_pos here]
      refine ih distinct (fun other member => ?_) ?_
      · have apart : register ≠ other := by
          rintro rfl
          exact fresh member
        rw [get_set, if_neg apart]
        exact unchanged other (List.mem_cons_of_mem _ member)
      · intro other outside
        rw [get_set]
        split
        · rename_i this
          rw [this]
        · rename_i apart
          exact changed other (by simp [Ne.symm apart, outside])

end RegisterFile

namespace Tracer

/-- The changes that are shown for a step are all that it changed, each with what was there before. -/
theorem replay_changedRegisters (before after : Machine) :
    before.registers.replay (changedRegisters before after) = some after.registers :=
  RegisterFile.replay_differences (by decide) (fun _ _ => rfl)
    fun register unlisted => absurd register.mem_all unlisted

/-- What a row of the trace is about: the step of a line, of which the steps are counted. -/
structure Row where
  count : Nat
  line : Line
  before : Machine
  after : Machine

namespace Row

/-- What the step changed. -/
def said (row : Row) : Said :=
  ⟨changedRegisters row.before row.after, changedFlags row.before row.after⟩

def text (tracer : Tracer) (row : Row) : String :=
  tracer.row row.count row.line row.before row.after

/-- Rows say what their steps changed. -/
theorem mapM_read?_text (tracer : Tracer) (rows : List Row) :
    (rows.map (text tracer)).mapM Said.read? = some (rows.map said) := by
  induction rows with
  | nil => rfl
  | cons row rest ih =>
    have read : Said.read? (row.text tracer) = some row.said := read?_row ..
    simp [read, ih]

/-- The row of a step from one machine to the next, if its line is shown. -/
def ofStep? (program : Program) (count : Nat) (before after : Machine) : Option Row :=
  ((program.line? before.rip).filter (·.instruction?.isSome)).map (⟨count, ·, before, after⟩)

end Row

/-- The rows of the steps that led from the initial machine along a trail, the first step first. -/
def rows (program : Program) (initial : Machine) (counted : Nat) : List Reached → List Row
  | [] => []
  | reached :: earlier =>
    let before := (earlier.head?.map Reached.machine).getD initial
    rows program initial counted earlier ++
      (Row.ofStep? program (counted + earlier.length + 1) before reached.machine).toList

end Tracer

/-- A line without an instruction is passed and nothing else. -/
theorem Program.Step.silent {program : Program} {machine : Machine} {decision : LineDecision}
    {line : Line} {reached : Reached} (step : program.Step machine decision line reached)
    (silent : line.instruction? = none) : reached.machine = machine.advance.countStep := by
  cases step with
  | evaluated _ _ evaluates =>
    rw [Line.evaluate, silent] at evaluates
    exact (Except.ok.inj evaluates).symm
  | skipped => rfl

/-- The observer after the end of a batch, when it has heard of a fault. -/
def BatchOutcome.heardBy {State : Type} (observer : Observer State) : BatchOutcome → State → State
  | fault raised, state => observer.onFault raised state
  | finished, state | stopped, state | exhausted, state => state

namespace Simulation

variable {State : Type} {observer : Observer State} {budget : Nat} {started : Bool}
  {simulation last : Simulation} {state final : State} {result : Except Fault RunOutcome}
  {passages : List Passage} {told : List Event}

/-- What holds of a simulation and its observer along with it, holds at the end of a run if the observer
keeps it when it is asked, every step keeps it, and a fault does. -/
theorem Course.carries {Holds : Simulation → State → Prop}
    (course : Course observer budget started simulation state passages told result last final)
    (asked : ∀ {simulation : Simulation} {state : State} (line : Line), Holds simulation state →
      Holds simulation (observer.onLine line simulation.current state).2)
    (passed : ∀ {simulation : Simulation} {state : State} {decision : LineDecision} {line : Line}
      {reached : Reached}, simulation.program.Step simulation.current decision line reached →
        Holds simulation state → Holds (simulation.passed decision reached)
          (observer.onStep line simulation.current reached.machine state))
    (failed : ∀ {simulation : Simulation} {state : State} (fault : Fault), Holds simulation state →
      Holds (simulation.failed fault) state)
    (holds : Holds simulation state) : Holds last final := by
  have reacts {simulation : Simulation} {started : Bool} {state next : State} {line : Line}
      {decision : LineDecision} (asks : simulation.Asks observer started state line decision next)
      (holds : Holds simulation state) : Holds simulation next := by
    have kept := asked line holds
    rwa [asks.answer] at kept
  induction course with
  | ends ending =>
    cases ending with
    | finished | stepLimit | breakpoint => exact holds
    | stopped _ asks => exact reacts asks holds
    | fault _ asks => exact failed _ (reacts asks holds)
  | pass asks step _ ih => exact ih (passed step (reacts asks holds))

variable (observer) in
/-- What the runs keep and the reaction to a breakpoint does, the batch keeps. -/
theorem runBatch_carries (onBreak : Simulation → Nat → State → State)
    {Holds : Simulation → State → Prop}
    (runs_keep : ∀ {simulation last : Simulation} {state final : State} {passages : List Passage}
      {told : List Event} {result : Except Fault RunOutcome},
      Course observer simulation.limits.maxSteps false simulation state passages told result last
        final → Holds simulation state → Holds last final)
    (breaks : ∀ {simulation : Simulation} {state : State} (line : Nat), Holds simulation state →
      Holds simulation (onBreak simulation line state))
    (runs : Nat) (holds : Holds simulation state) :
    ∃ outcome last final,
      runBatch observer onBreak runs simulation state =
        (outcome, last, outcome.heardBy observer final) ∧ Holds last final := by
  induction runs generalizing simulation state with
  | zero => exact ⟨.exhausted, simulation, state, rfl, holds⟩
  | succ runs ih =>
    obtain ⟨passages, told, result, last, final, course⟩ :=
      exists_course observer simulation.limits.maxSteps false simulation state
    have kept := runs_keep course holds
    rw [runBatch, course.run_eq]
    cases result with
    | error fault => exact ⟨_, _, _, rfl, kept⟩
    | ok outcome =>
      cases outcome with
      | finished | stopped => exact ⟨_, _, _, rfl, kept⟩
      | stepLimit => exact ih kept
      | breakpoint line => exact ih (breaks line kept)

end Simulation

namespace Tracer

/-- The transcript tells what happened since it was `begun`: it has counted the steps, it has a row for
each step of an instruction, and what the rows show leads to the current registers and flags. -/
structure Tells (tracer : Tracer) (program : Program) (initial : Machine) (begun : Transcript)
    (simulation : Simulation) (transcript : Transcript) : Prop where
  program_eq : simulation.program = program
  initial_eq : simulation.initial = initial
  lineCount : transcript.lineCount = begun.lineCount + simulation.trail.length
  output : transcript.output = begun.output ++
    String.join ((rows program initial begun.lineCount simulation.trail).map (Row.text tracer))
  registers : initial.registers.replay
      ((rows program initial begun.lineCount simulation.trail).flatMap fun row => row.said.changes) =
    some simulation.current.registers
  flags : ((rows program initial begun.lineCount simulation.trail).filterMap
      fun row => row.said.flags?).getLast?.getD initial.flags = simulation.current.flags

namespace Tells

variable {tracer : Tracer} {program : Program} {initial : Machine} {begun transcript : Transcript}
  {simulation : Simulation}

theorem start (tracer : Tracer) (program : Program) (initial : Machine) (limits : RunLimits)
    (begun : Transcript) :
    tracer.Tells program initial begun (.startingFrom program initial limits) begun where
  program_eq := rfl
  initial_eq := rfl
  lineCount := rfl
  output := (String.append_empty).symm
  registers := rfl
  flags := rfl

theorem failed (tells : tracer.Tells program initial begun simulation transcript) (fault : Fault) :
    tracer.Tells program initial begun (simulation.failed fault) transcript :=
  ⟨tells.program_eq, tells.initial_eq, tells.lineCount, tells.output, tells.registers, tells.flags⟩

section Step

variable {decision : LineDecision} {line : Line} {reached : Reached}
  (tells : tracer.Tells program initial begun simulation transcript)
  (step : simulation.program.Step simulation.current decision line reached)
include tells step

theorem rows_passed : rows program initial begun.lineCount (simulation.passed decision reached).trail =
    rows program initial begun.lineCount simulation.trail ++
      if line.instruction?.isSome then
        [⟨transcript.lineCount + 1, line, simulation.current, reached.machine⟩] else [] := by
  have placed := step.found
  rw [tells.program_eq] at placed
  have before : (simulation.trail.head?.map Reached.machine).getD initial = simulation.current := by
    rw [Simulation.current, tells.initial_eq]
  rw [Simulation.passed, rows, before, Row.ofStep?, placed, tells.lineCount]
  split <;> simp_all

/-- A line that is not shown is counted, and nothing is lost by not showing it. -/
theorem passed_silent (silent : line.instruction? = none) :
    tracer.Tells program initial begun (simulation.passed decision reached)
      (tracer.onStep line simulation.current reached.machine transcript) := by
  have same := tells.rows_passed step
  rw [silent, Option.isSome_none, if_neg Bool.false_ne_true, List.append_nil] at same
  have moved := step.silent silent
  have counted : tracer.onStep line simulation.current reached.machine transcript =
      { transcript with lineCount := transcript.lineCount + 1 } := by
    simp [onStep, silent]
  rw [counted]
  refine ⟨tells.program_eq, tells.initial_eq, ?_, ?_, ?_, ?_⟩
  · exact congrArg (· + 1) tells.lineCount
  · rw [same]
    exact tells.output
  · rw [same, tells.registers, Simulation.current_passed, moved]
    rfl
  · rw [same, tells.flags, Simulation.current_passed, moved]
    rfl

theorem passed_shown (enabled : tracer.enabled = true) (shown : line.instruction?.isSome = true) :
    tracer.Tells program initial begun (simulation.passed decision reached)
      (tracer.onStep line simulation.current reached.machine transcript) := by
  let row : Row := ⟨transcript.lineCount + 1, line, simulation.current, reached.machine⟩
  have added := tells.rows_passed step
  rw [if_pos shown] at added
  have written : tracer.onStep line simulation.current reached.machine transcript =
      ⟨transcript.lineCount + 1, transcript.output ++ row.text tracer⟩ := by
    simp [onStep, enabled, shown, Transcript.write, Row.text, row]
  rw [written]
  refine ⟨tells.program_eq, tells.initial_eq, ?_, ?_, ?_, ?_⟩
  · exact congrArg (· + 1) tells.lineCount
  · rw [added, List.map_append, String.join_append, ← String.append_assoc, ← tells.output]
    simp [row]
  · rw [added, List.flatMap_append, RegisterFile.replay_append, tells.registers]
    simpa [Row.said] using replay_changedRegisters simulation.current reached.machine
  · rw [added, List.filterMap_append, List.getLast?_append, Simulation.current_passed]
    let flags? (row : Row) : Option Flags := row.said.flags?
    by_cases same : simulation.current.flags = reached.machine.flags
    · have unshown : flags? row = none := if_pos same
      rw [List.filterMap_cons_none unshown, ← same]
      exact tells.flags
    · have shows : flags? row = some reached.machine.flags := if_neg same
      rw [List.filterMap_cons_some shows]
      rfl

theorem passed (enabled : tracer.enabled = true) :
    tracer.Tells program initial begun (simulation.passed decision reached)
      (tracer.onStep line simulation.current reached.machine transcript) := by
  cases found : line.instruction? with
  | none => exact tells.passed_silent step found
  | some body => exact tells.passed_shown step enabled (by rw [found]; rfl)

end Step

end Tells

theorem lineCount_heardBy (tracer : Tracer) (outcome : BatchOutcome) (transcript : Transcript) :
    (outcome.heardBy tracer.observer transcript).lineCount = transcript.lineCount := by
  cases outcome with
  | fault raised =>
    simp only [BatchOutcome.heardBy, observer, onFault]
    split <;> rfl
  | finished | stopped | exhausted => rfl

/-- The trace of a batch tells all of it. Its texts, which a fault is written behind, can be read, and say
of each register change what the register holds at that moment and what it holds then. The changes lead
to the final registers, and the last flags are the final ones. All steps are counted. What is done at
breakpoints is up to the caller, but does not write into the trace. -/
theorem runBatch_traced {Extra : Type} (coloured : Bool) (actions : LineActions) (program : Program)
    (initial : Machine) (limits : RunLimits) (onBreak : Simulation → Nat → Extra → Extra) (runs : Nat)
    (transcript : Transcript) (extra : Extra) :
    let tracer : Tracer := ⟨true, coloured, actions⟩
    ∃ outcome last final after texts said,
      Simulation.runBatch (tracer.observer.beside Extra)
          (fun simulation line state => (state.1, onBreak simulation line state.2)) runs
          (.startingFrom program initial limits) (transcript, extra) =
        (outcome, last, final, after) ∧
      final = outcome.heardBy tracer.observer
        ⟨final.lineCount, transcript.output ++ String.join texts⟩ ∧
      final.lineCount + 1 = transcript.lineCount + last.history.length ∧
      texts = (rows program initial transcript.lineCount last.trail).map (Row.text tracer) ∧
      texts.mapM Said.read? = some said ∧
      initial.registers.replay (said.flatMap Said.changes) = some last.current.registers ∧
      (said.filterMap Said.flags?).getLast?.getD initial.flags = last.current.flags := by
  intro tracer
  let Holds (simulation : Simulation) (state : Transcript × Extra) : Prop :=
    tracer.Tells program initial transcript simulation state.1
  have start : Holds (.startingFrom program initial limits) (transcript, extra) := .start ..
  obtain ⟨outcome, last, ⟨traced, after⟩, run, tells⟩ :=
    Simulation.runBatch_carries (tracer.observer.beside Extra)
      (fun simulation line state => (state.1, onBreak simulation line state.2))
      (fun course holds => course.carries (fun _ => id) (fun step tells => tells.passed step rfl)
        (fun fault tells => tells.failed fault) holds)
      (fun _ => id) runs start
  let shown := rows program initial transcript.lineCount last.trail
  have counted := tracer.lineCount_heardBy outcome traced
  refine ⟨outcome, last, outcome.heardBy tracer.observer traced, after, shown.map (Row.text tracer),
    shown.map Row.said, run.trans ?_, ?_, ?_, rfl, Row.mapM_read?_text tracer shown, ?_, ?_⟩
  · cases outcome <;> rfl
  · rw [counted, ← tells.output]
  · rw [counted, tells.lineCount, Simulation.history]
    simp [Nat.add_assoc]
  · rw [List.flatMap_map]
    exact tells.registers
  · rw [List.filterMap_map]
    exact tells.flags

/-- A comment and a label that are counted and not shown, and a skipped line that is shown and changes
nothing. -/
theorem runBatch_traced_skipping :
    let source := "movq $5, %rbx\n# note\nmovq $7, %rcx\ncmpq $5, %rbx\ndone:"
    let program := (Program.ofSource source).toOption.getD .empty
    let initial := Machine.initial 0x8000
    let tracer : Tracer := ⟨true, false, (∅ : LineActions).insert 2 [.skip]⟩
    let texts :=
      ["[000001]    0: movq $5, %rbx                    | RBX=0->5 \n",
        "[000003]    2: movq $7, %rcx (skipped)          |  \n",
        "[000004]    3: cmpq $5, %rbx                    |  Z---\n"]
    ∃ outcome last after,
      Simulation.runBatch (tracer.observer.beside Unit) (fun _ _ state => (state.1, state.2)) 2
        (.startingFrom program initial {}) ({}, ()) = (outcome, last, ⟨5, String.join texts⟩, after) ∧
      last.history.length = 6 ∧
      texts.mapM Said.read? =
        some [⟨[(.rbx, 0, 5)], none⟩, ⟨[], none⟩, ⟨[], some { zero := true }⟩] ∧
      last.current.registers = initial.registers.set .rbx 5 ∧
      last.current.flags = { zero := true } := by
  intro source program initial tracer texts
  obtain ⟨outcome, last, final, after, rows, said, run, -, counted, shown, read, registers, flags⟩ :=
    runBatch_traced false tracer.actions program initial {} (fun _ _ extra => extra) 2 {} ()
  have written : (Simulation.runBatch (tracer.observer.beside Unit)
      (fun _ _ state => (state.1, state.2)) 2 (.startingFrom program initial {}) ({}, ())).2.2.1 =
        ⟨5, String.join texts⟩ := by decide +kernel
  have listed : (Tracer.rows program initial 0 (Simulation.runBatch (tracer.observer.beside Unit)
      (fun _ _ state => (state.1, state.2)) 2 (.startingFrom program initial {})
        ({}, ())).2.1.trail).map (Row.text tracer) = texts := by decide +kernel
  have told : texts.mapM Said.read? =
      some [⟨[(.rbx, 0, 5)], none⟩, ⟨[], none⟩, ⟨[], some { zero := true }⟩] := by decide +kernel
  rw [run] at written listed
  obtain rfl : rows = texts := shown.trans listed
  obtain rfl := Option.some.inj (told.symm.trans read)
  dsimp only at written
  subst written
  refine ⟨outcome, last, after, run, ?_, told, ?_, flags.symm⟩
  · simpa using counted.symm
  · exact Option.some.inj (registers.symm.trans rfl)

end Tracer

end AsmLab
