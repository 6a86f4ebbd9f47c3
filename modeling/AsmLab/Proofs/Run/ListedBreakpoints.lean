import AsmLab.Proofs.Program.Reload
import AsmLab.Proofs.Run.Composition
import AsmLab.Settings

/-! Breakpoints that settings list. Each entry turns the mark of its line over, so a line of the
program is marked in the end if it is listed an odd number of times. -/
namespace AsmLab

namespace Program

variable {program : Program}

/-- No line has a breakpoint. -/
def Unmarked (program : Program) : Prop :=
  ∀ line ∈ program.lines, line.breakpoint = false

theorem Unmarked.append (unmarked : program.Unmarked) {line : Line}
    (fresh : line.breakpoint = false) (session : Source.Session) :
    Unmarked ⟨program.lines ++ [line], session⟩ := by
  intro other member
  rcases List.mem_append.mp member with old | new
  · exact unmarked other old
  · obtain rfl := List.mem_singleton.mp new
    exact fresh

/-- Lines that are read have no breakpoint yet, and neither have those that stand for rejected ones. -/
theorem pushOrReport_unmarked {state : Program × List SourceError} (unmarked : state.1.Unmarked)
    (text : String) : (pushOrReport state text).1.Unmarked := by
  obtain ⟨program, errors⟩ := state
  unfold pushOrReport push
  rcases read : (program.session.setLine program.length).parseLine text with ⟨error | line, next⟩
  · simp only [read]
    exact unmarked.append rfl _
  · simp only [read]
    exact unmarked.append (Source.Session.parseLine_ok read).unmarked next

theorem readLines_unmarked (texts : List String) : (readLines texts).1.Unmarked := by
  have fold (state : Program × List SourceError) (unmarked : state.1.Unmarked) :
      (texts.foldl pushOrReport state).1.Unmarked := by
    induction texts generalizing state with
    | nil => exact unmarked
    | cons text rest ih => exact ih _ (pushOrReport_unmarked unmarked text)
  exact fold (empty, []) (by simp [Unmarked, empty])

theorem ofSource_unmarked {source : String} (read : ofSource source = .ok program) :
    program.Unmarked := by
  have unmarked := readLines_unmarked ((splitLines source.toList).map String.ofList)
  rwa [ofSource_eq_ok.mp read] at unmarked

theorem isBreakpoint_toggleBreakpoint (program : Program) {line : Nat}
    (inside : line < program.length) (index : Nat) :
    (program.toggleBreakpoint line).isBreakpoint index =
      (program.isBreakpoint index ^^ decide (line = index)) := by
  have placed : (program.toggleBreakpoint line).line? index = _ :=
    List.getElem?_modify _ line program.lines index
  rw [isBreakpoint, isBreakpoint, placed, ← line?]
  by_cases same : line = index
  · subst same
    obtain ⟨found, there⟩ : ∃ found, program.line? line = some found :=
      ⟨_, List.getElem?_eq_getElem inside⟩
    simp [there]
  · cases program.line? index <;> simp [same]

/-- Turns the mark of every listed line over that the program has. -/
def toggleAll (program : Program) (lines : List Nat) : Program :=
  lines.foldl
    (fun program line => if line < program.length then program.toggleBreakpoint line else program)
    program

theorem length_toggleAll (program : Program) (lines : List Nat) :
    (program.toggleAll lines).length = program.length := by
  induction lines generalizing program with
  | nil => rfl
  | cons line rest ih =>
    rw [toggleAll, List.foldl_cons, ← toggleAll, ih]
    split
    · exact length_toggleBreakpoint line
    · rfl

/-- Only how often a line is listed counts, not in which company. -/
theorem isBreakpoint_toggleAll (program : Program) (lines : List Nat) {index : Nat}
    (inside : index < program.length) :
    (program.toggleAll lines).isBreakpoint index =
      (program.isBreakpoint index ^^ decide (Odd (lines.count index))) := by
  induction lines generalizing program with
  | nil => simp [toggleAll]
  | cons line rest ih =>
    rw [toggleAll, List.foldl_cons, ← toggleAll]
    split
    · rename_i within
      rw [ih _ (inside.trans_eq (length_toggleBreakpoint line).symm),
        isBreakpoint_toggleBreakpoint program within]
      by_cases same : line = index
      · subst same
        rw [List.count_cons_self, decide_eq_decide.mpr Nat.odd_add_one, decide_not]
        simp
      · simp [same]
    · rename_i beyond
      have other : line ≠ index := fun same => beyond (same ▸ inside)
      rw [ih _ inside, List.count_cons_of_ne other]

theorem isBreakpoint_of_length_le {index : Nat} (outside : program.length ≤ index) :
    program.isBreakpoint index = false := by
  rw [isBreakpoint, line?, List.getElem?_eq_none outside]
  rfl

end Program

namespace Settings

variable {settings : Settings} {source : String} {program : Program}

theorem prepare_eq (read : Program.ofSource source = .ok program) :
    settings.prepare source = .ok (.startingFrom (program.toggleAll settings.breakpoints)
      settings.initialMachine settings.limits) := by
  rw [prepare, read]
  rfl

/-- A source that reads is set up with breakpoints at its lines that are listed an odd number of
times. These are all listed lines unless one of them is listed an even number of times. -/
theorem prepare_breakpoints (read : Program.ofSource source = .ok program) :
    ∃ simulation, settings.prepare source = .ok simulation ∧
      simulation.program.length = program.length ∧
      (∀ line, simulation.program.isBreakpoint line = true ↔
        Odd (settings.breakpoints.count line) ∧ line < program.length) ∧
      ((∀ line, simulation.program.isBreakpoint line = true ↔
          line ∈ settings.breakpoints ∧ line < program.length) ↔
        ∀ line < program.length, line ∈ settings.breakpoints →
          Odd (settings.breakpoints.count line)) := by
  have length := program.length_toggleAll settings.breakpoints
  have marked (line : Nat) : (program.toggleAll settings.breakpoints).isBreakpoint line = true ↔
      Odd (settings.breakpoints.count line) ∧ line < program.length := by
    by_cases inside : line < program.length
    · rw [program.isBreakpoint_toggleAll settings.breakpoints inside,
        Program.isBreakpoint_eq_false (Program.ofSource_unmarked read)]
      simp [inside]
    · rw [Program.isBreakpoint_of_length_le (length.trans_le (Nat.le_of_not_lt inside))]
      simp [inside]
  refine ⟨_, prepare_eq read, length, marked, ?_⟩
  constructor
  · intro exact line inside listed
    exact ((marked line).mp ((exact line).mpr ⟨listed, inside⟩)).1
  · intro odd line
    refine (marked line).trans ⟨?_, ?_⟩
    · rintro ⟨often, inside⟩
      exact ⟨List.count_pos_iff.mp often.pos, inside⟩
    · rintro ⟨listed, inside⟩
      exact ⟨odd line inside listed, inside⟩

/-- Three moves whose second line is listed three times, beside a line that they do not have. -/
theorem prepare_breakpoints_thrice :
    let source := "movq $1, %rax\nmovq $2, %rbx\nmovq $3, %rcx"
    let settings : Settings := { breakpoints := [1, 99, 1, 1] }
    ∃ program simulation, Program.ofSource source = .ok program ∧
      settings.prepare source = .ok simulation ∧
      simulation.program.isBreakpoint 1 = true ∧ simulation.program.isBreakpoint 99 = false := by
  intro source settings
  have three : (Program.ofSource source).toOption.any (·.length = 3) = true := by decide +kernel
  cases read : Program.ofSource source with
  | error errors =>
    rw [read] at three
    cases three
  | ok program =>
    rw [read] at three
    have length : program.length = 3 := of_decide_eq_true three
    obtain ⟨simulation, prepared, _, marked, _⟩ := @prepare_breakpoints settings source program read
    refine ⟨program, simulation, rfl, prepared, (marked 1).mpr ?_, ?_⟩
    · rw [length]
      decide
    · rw [← Bool.not_eq_true, marked, length]
      decide

/-- A line that is listed twice has no breakpoint in the end. -/
theorem not_prepare_breakpoints :
    ¬ ∀ (settings : Settings) (source : String) (program : Program) (simulation : Simulation),
        Program.ofSource source = .ok program → settings.prepare source = .ok simulation →
        ∀ line, simulation.program.isBreakpoint line = true ↔
          line ∈ settings.breakpoints ∧ line < program.length := by
  intro exact
  have three : (Program.ofSource "movq $1, %rax\nmovq $2, %rbx\nmovq $3, %rcx").toOption.any
      (·.length = 3) = true := by decide +kernel
  cases read : Program.ofSource "movq $1, %rax\nmovq $2, %rbx\nmovq $3, %rcx" with
  | error errors =>
    rw [read] at three
    cases three
  | ok program =>
    rw [read] at three
    have length : program.length = 3 := of_decide_eq_true three
    have taken : (program.toggleAll [1, 1]).isBreakpoint 1 = false := by
      rw [program.isBreakpoint_toggleAll [1, 1] (by omega),
        Program.isBreakpoint_eq_false (Program.ofSource_unmarked read)]
      decide
    have listed := exact { breakpoints := [1, 1] } _ program _ read (prepare_eq read) 1
    rw [length] at listed
    exact absurd (taken.symm.trans (listed.mpr (by decide))) Bool.false_ne_true

end Settings

end AsmLab
