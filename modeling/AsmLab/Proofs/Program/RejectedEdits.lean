import AsmLab.Proofs.Program.Editing
import AsmLab.Run.Simulation

/-! A rejected text changes nothing, neither in a session nor in a program nor in a simulation. What
renumbering restores is fixed by the lines and the names of the labels, and these are restored by
hand. -/
namespace AsmLab

theorem LabelTable.ext_names {table other : LabelTable} (names : table.names = other.names)
    (lines : ∀ id, table.line? id = other.line? id) : table = other := by
  obtain ⟨entries⟩ := table
  obtain ⟨others⟩ := other
  congr 1
  apply List.ext_getElem?
  intro index
  have sameName := congrArg (·[index]?) names
  have sameLine := lines ⟨index⟩
  simp only [LabelTable.names, List.getElem?_map] at sameName
  simp only [LabelTable.line?] at sameLine
  rcases first : entries[index]? with _ | ⟨name, line⟩ <;>
    rcases second : others[index]? with _ | ⟨otherName, otherLine⟩ <;>
    simp_all

/-- A label with a definition has a name. -/
theorem LabelTable.exists_name {table : LabelTable} {id : LabelId} {index : Nat}
    (defined : table.line? id = some index) : ∃ name, table.name? id = some name := by
  obtain ⟨entry, found, _⟩ := Option.bind_eq_some_iff.mp defined
  exact ⟨entry.name, by rw [LabelTable.name?, found]; rfl⟩

/-- A line without its number. -/
def Line.unnumbered (line : Line) : Line :=
  { line with number := 0 }

namespace Program

variable {program other : Program}

theorem map_unnumbered_number (start : Nat) (lines : List Line) :
    (number start lines).map Line.unnumbered = lines.map Line.unnumbered := by
  induction lines generalizing start with
  | nil => rfl
  | cons line rest ih => simp [number, ih, Line.unnumbered]

theorem number_congr {lines others : List Line}
    (same : lines.map Line.unnumbered = others.map Line.unnumbered) (start : Nat) :
    number start lines = number start others := by
  induction lines generalizing others start with
  | nil => rw [List.map_eq_nil_iff.mp same.symm]
  | cons line rest ih =>
    cases others with
    | nil => cases same
    | cons other others =>
      obtain ⟨head, tail⟩ := List.cons.inj same
      simp only [number, ih tail]
      congr 1
      obtain ⟨_, statement, comment, breakpoint⟩ := line
      cases head
      rfl

namespace Indexed

variable (indexed : program.Indexed)
include indexed

theorem number_eq : number 0 program.lines = program.lines := by
  apply List.ext_getElem?
  intro index
  rw [getElem?_number, Nat.zero_add]
  cases found : program.lines[index]? with
  | none => rfl
  | some line =>
    obtain rfl := indexed.numbers index line found
    rfl

/-- A label that a line defines has a name. -/
theorem exists_name {line : Line} {id : LabelId} (member : line ∈ program.lines)
    (defines : line.definedLabel? = some id) : ∃ name, program.labels.name? id = some name := by
  obtain ⟨index, placed⟩ := List.mem_iff_getElem?.mp member
  exact LabelTable.exists_name ((indexed.definitions id index).mpr ⟨line, placed, defines⟩)

/-- Defining every label anew gives the definitions that the program had. -/
theorem defineLabels_eq {labels : LabelTable} (names : labels.names = program.labels.names) :
    defineLabels labels.undefineAll program.lines = program.labels := by
  have known : ∀ line ∈ program.lines, ∀ id, line.definedLabel? = some id →
      ∃ name, labels.undefineAll.name? id = some name := by
    intro line member id defines
    obtain ⟨name, named⟩ := indexed.exists_name member defines
    exact ⟨name, by rwa [LabelTable.name?_eq, LabelTable.names_undefineAll, names,
      ← LabelTable.name?_eq]⟩
  apply LabelTable.ext_names
  · rw [names_defineLabels, LabelTable.names_undefineAll, names]
  · refine fun id => Option.ext fun index => ?_
    rw [line?_defineLabels known indexed.unique, LabelTable.line?_undefineAll,
      indexed.definitions id index]
    constructor
    · rintro (⟨line, member, defines, rfl⟩ | ⟨_, absurdity⟩)
      · obtain ⟨position, placed⟩ := List.mem_iff_getElem?.mp member
        rw [indexed.numbers position line placed]
        exact ⟨line, placed, defines⟩
      · cases absurdity
    · rintro ⟨line, placed, defines⟩
      exact .inl ⟨line, List.mem_of_getElem? placed, defines, indexed.numbers index line placed⟩

/-- Renumbering undoes every change to the numbers and to what the session defines. -/
theorem renumber_eq (lines : other.lines.map Line.unnumbered = program.lines.map Line.unnumbered)
    (names : other.labels.names = program.labels.names) : other.renumber = program := by
  have same : number 0 other.lines = program.lines :=
    (number_congr lines 0).trans indexed.number_eq
  have next : program.lines.length = program.session.nextLine := indexed.next.symm
  rw [renumber, same, indexed.defineLabels_eq names, next]
  rfl

theorem insert_rejected {index : Nat} {text : String} {error : Source.ParseError}
    {rest : Program} (rejected : program.insert index text = (.error error, rest)) :
    rest = program := by
  obtain rfl := insert_error rejected
  exact indexed.renumber_eq rfl rfl

end Indexed

theorem remove_none {index : Nat} {rest : Program} (absent : program.remove index = (none, rest)) :
    rest = program := by
  unfold remove at absent
  split at absent
  · cases absent
    rfl
  · cases absent

/-- The old line is put back where it stood, so that only numbers and definitions are to restore. -/
theorem Indexed.replace_rejected (indexed : program.Indexed) {index : Nat} {text : String}
    {error : Source.ParseError} {rest : Program}
    (rejected : program.replace index text = (.error error, rest)) : rest = program := by
  unfold replace at rejected
  split at rejected
  · rename_i unchanged absent
    obtain rfl := remove_none absent
    exact indexed.insert_rejected rejected
  · rename_i old shorter removed
    split at rejected
    · cases rejected
    · rename_i failed
      cases rejected
      obtain ⟨found, rfl⟩ := remove_some removed
      obtain rfl := insert_error failed
      refine indexed.renumber_eq ?_ ((names_renumber _).trans (names_renumber _))
      have shorter := (map_unnumbered_number 0 _).trans
        (map_unnumbered_number 0 (program.lines.eraseIdx index))
      obtain ⟨bound, rfl⟩ := List.getElem?_eq_some_iff.mp found
      change ((number 0 (number 0 (program.lines.eraseIdx index))).insertIdx index
        program.lines[index]).map Line.unnumbered = _
      rw [List.map_insertIdx, shorter, ← List.map_insertIdx, List.insertIdx_eraseIdx_getElem bound]

end Program

namespace Simulation

variable {simulation rest : Simulation} {index : Nat} {text : String} {error : Source.ParseError}

/-- A failed edit of the program is the only thing that a failed edit does. -/
theorem edited_error {edit : Except Source.ParseError Unit × Program}
    (failed : simulation.edited edit = (.error error, rest)) :
    ∃ program, edit = (.error error, program) ∧ rest = { simulation with program } := by
  obtain ⟨result, program⟩ := edit
  cases result with
  | ok => cases failed
  | error =>
    cases failed
    exact ⟨program, rfl, rfl⟩

theorem insertLine_rejected (indexed : simulation.program.Indexed)
    (rejected : simulation.insertLine index text = (.error error, rest)) : rest = simulation := by
  obtain ⟨program, failed, rfl⟩ := edited_error rejected
  obtain rfl := indexed.insert_rejected failed
  rfl

theorem replaceLine_rejected (indexed : simulation.program.Indexed)
    (rejected : simulation.replaceLine index text = (.error error, rest)) : rest = simulation := by
  obtain ⟨program, failed, rfl⟩ := edited_error rejected
  obtain rfl := indexed.replace_rejected failed
  rfl

end Simulation

/-- A text that is rejected leaves everything as it was: the session that read it, the program that
it was to become a line of, with its numbers, breakpoints, label names and definitions, and a
simulation of that program, with its history and its fault. -/
theorem rejected_unchanged :
    (∀ (session next : Source.Session) (text : String) (error : Source.ParseError),
        session.parseLine text = (.error error, next) → next = session) ∧
      (∀ (program rest : Program) (index : Nat) (text : String) (error : Source.ParseError),
        program.Indexed →
          (program.push text = (.error error, rest) → rest = program) ∧
            (program.insert index text = (.error error, rest) → rest = program) ∧
              (program.replace index text = (.error error, rest) → rest = program)) ∧
        ∀ (simulation rest : Simulation) (index : Nat) (text : String) (error : Source.ParseError),
          simulation.program.Indexed →
            (simulation.insertLine index text = (.error error, rest) → rest = simulation) ∧
              (simulation.replaceLine index text = (.error error, rest) → rest = simulation) := by
  refine ⟨fun session next text error => Source.Session.parseLine_error, ?_, ?_⟩
  · intro program rest index text error indexed
    exact ⟨Program.push_error indexed.next, indexed.insert_rejected, indexed.replace_rejected⟩
  · intro simulation rest index text error indexed
    exact ⟨Simulation.insertLine_rejected indexed, Simulation.replaceLine_rejected indexed⟩

/-- A label definition with a breakpoint, to be replaced by a line that lacks an operand. -/
theorem rejected_unchanged_loop :
    let program := ((Program.empty.edit (.push "loop:")).edit (.push "jmp loop")).edit
      (.toggleBreakpoint 0)
    let simulation := Simulation.start program {}
    program.Indexed ∧
      ∃ error, simulation.replaceLine 0 "movq %rax" = (.error error, simulation) := by
  intro program simulation
  have reached : program.Reachable := .edited (.edited (.edited .start _) _) _
  have indexed : program.Indexed := reached.consistent.indexed
  have fails : (simulation.replaceLine 0 "movq %rax").1.isOk = false := by decide +kernel
  cases outcome : simulation.replaceLine 0 "movq %rax" with
  | mk result rest =>
    rw [outcome] at fails
    cases result with
    | ok => cases fails
    | error error =>
      obtain rfl := (rejected_unchanged.2.2 simulation rest 0 _ error indexed).2 outcome
      exact ⟨indexed, error, rfl⟩

end AsmLab
