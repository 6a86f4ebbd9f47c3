import AsmLab.Proofs.Exec.Control
import AsmLab.Proofs.Program.Loading

/-! Branches through edits. A branch names an entry of the label table, not a line, so that its own
line is never rewritten: it goes to the definition of its label wherever an edit moves that, faults
once the definition is taken out, and goes to the new one as soon as the label is defined again. -/
namespace AsmLab

open Source (Session)

namespace Line

/-- The line is a jump or a call to a label. No other instruction takes such an operand. -/
def BranchesTo (line : Line) (name : String) : Prop :=
  ∃ mnemonic id, line.statement = .instruction ⟨mnemonic, .unary (.label ⟨id, name⟩)⟩

/-- Whether the line is a jump or a call that the flags let happen. -/
def isTaken (line : Line) (flags : Flags) : Bool :=
  line.instruction?.any fun body => body.mnemonic.opcode.branches flags

/-- Where a taken branch goes depends on the definition of its label only. -/
theorem evaluate_taken {line : Line} {mnemonic : Mnemonic} {label : LabelRef} {machine : Machine}
    (branch : line.statement = .instruction ⟨mnemonic, .unary (.label label)⟩)
    (taken : line.isTaken machine.flags = true) (labels : LabelTable) :
    (∀ target, labels.line? label.id = some target →
        ∃ after, line.evaluate machine labels = .ok after ∧ after.rip = target) ∧
      (labels.line? label.id = none →
        line.evaluate machine labels = .error ⟨line.number, .unresolvedLabel label.name⟩) := by
  have found : line.instruction? = some ⟨mnemonic, .unary (.label label)⟩ := by
    rw [instruction?, branch]
  rw [isTaken, found] at taken
  obtain ⟨goOn, rip, run⟩ := Instruction.execute_taken taken labels
  rw [Instruction.target_eq rfl] at run
  constructor
  · intro target defined
    rw [defined] at run
    exact ⟨(goOn target).countStep, by simp [evaluate, found, run, Except.map], rip target⟩
  · intro undefined
    rw [undefined] at run
    simp [evaluate, found, run, Except.map]

end Line

namespace Program

/-- Where a line stands once another one is put in front of the line at `place`. -/
def afterInsert (place index : Nat) : Nat :=
  index + if place ≤ index then 1 else 0

/-- Where a line stands once the one at `place` is taken out. -/
def afterRemove (place index : Nat) : Nat :=
  index - if place < index then 1 else 0

/-- The line at `index` is the given branch, but for its number. It goes to the line at `target`,
which defines its label. -/
structure Linked (program : Program) (branch : Line) (name : String) (index target : Nat) : Prop where
  placed : program.line? index = some { branch with number := index }
  defined : ∃ definition, program.line? target = some definition ∧
    definition.statement.names = .label name
  jumps : ∀ machine : Machine, branch.isTaken machine.flags = true →
    ∃ after, Line.evaluate { branch with number := index } machine program.labels = .ok after ∧
      after.rip = target

/-- The line at `index` is the given branch, but for its number. It faults, as no line defines its
label. -/
structure Unlinked (program : Program) (branch : Line) (name : String) (index : Nat) : Prop where
  placed : program.line? index = some { branch with number := index }
  undefined : ∀ line ∈ program.lines, line.statement.names ≠ .label name
  faults : ∀ machine : Machine, branch.isTaken machine.flags = true →
    Line.evaluate { branch with number := index } machine program.labels =
      .error ⟨index, .unresolvedLabel name⟩

variable {program after : Program} {branch definition line : Line} {name text : String}
  {place index target : Nat}

namespace Consistent

variable (consistent : program.Consistent)
include consistent

theorem evaluate_branch (member : branch ∈ program.lines)
    (branches : branch.BranchesTo name) {machine : Machine}
    (taken : branch.isTaken machine.flags = true) :
    (∀ target, program.definitionOf? name = some target →
        ∃ after, branch.evaluate machine program.labels = .ok after ∧ after.rip = target) ∧
      (program.definitionOf? name = none →
        branch.evaluate machine program.labels = .error ⟨branch.number, .unresolvedLabel name⟩) := by
  obtain ⟨mnemonic, id, shape⟩ := branches
  have same := consistent.line?_id member ⟨id, name⟩
    (by simp [shape, Statement.labels, Operands.toList, Operand.labels])
  rw [← same]
  exact Line.evaluate_taken shape taken program.labels

theorem definitionOf?_of_names (defined : program.line? target = some definition)
    (defines : definition.statement.names = .label name) :
    program.definitionOf? name = some target :=
  consistent.definitionOf?_eq_some.mpr
    ⟨definition, defined, Statement.definedName?_eq_some.mpr defines⟩

theorem linked (branches : branch.BranchesTo name)
    (placed : program.line? index = some { branch with number := index })
    (defined : program.line? target = some definition)
    (defines : definition.statement.names = .label name) :
    program.Linked branch name index target where
  placed := placed
  defined := ⟨definition, defined, defines⟩
  jumps _ taken :=
    (consistent.evaluate_branch (List.mem_of_getElem? placed) branches taken).1 target
      (consistent.definitionOf?_of_names defined defines)

theorem unlinked (branches : branch.BranchesTo name)
    (placed : program.line? index = some { branch with number := index })
    (undefined : program.definitionOf? name = none) :
    program.Unlinked branch name index where
  placed := placed
  undefined line member defines := by
    obtain ⟨position, found⟩ := List.mem_iff_getElem?.mp member
    have defined := consistent.definitionOf?_of_names found defines
    simp [undefined] at defined
  faults _ taken :=
    (consistent.evaluate_branch (List.mem_of_getElem? placed) branches taken).2 undefined

end Consistent

theorem insert_ok (inserted : program.insert place text = (.ok (), after)) :
    ∃ added next,
      (program.session.setLine (min place program.length)).parseLine text = (.ok added, next) ∧
        after = renumber ⟨program.lines.insertIdx (min place program.length) added, next⟩ := by
  unfold insert at inserted
  simp only at inserted
  split at inserted
  · cases inserted
  · rename_i added next accepted
    cases inserted
    exact ⟨added, next, accepted, rfl⟩

/-- An insertion moves a line, and changes nothing of it but its number. -/
theorem line?_insert (inserted : program.insert place text = (.ok (), after))
    (placed : program.line? index = some line) :
    after.line? (afterInsert place index) = some { line with number := afterInsert place index } := by
  obtain ⟨added, next, _, rfl⟩ := insert_ok inserted
  have inside : index < program.length := (List.getElem?_eq_some_iff.mp placed).1
  have moved : (program.lines.insertIdx (min place program.length) added)[afterInsert place index]? =
      some line := by
    unfold afterInsert
    by_cases before : place ≤ index
    · rw [if_pos before, List.getElem?_insertIdx_of_gt (by omega)]
      exact placed
    · rw [if_neg before, List.getElem?_insertIdx_of_lt (by omega)]
      exact placed
  rw [line?_renumber]
  exact congrArg _ moved

theorem line?_insert_added (inserted : program.insert place text = (.ok (), after)) :
    ∃ added, after.line? (min place program.length) = some added ∧
      Source.meaning? text = some added.meaning := by
  obtain ⟨added, next, accepted, rfl⟩ := insert_ok inserted
  have inside : min place program.length ≤ program.lines.length := Nat.min_le_right _ _
  have meaning := Line.meaning?_of_accepts (Session.parseLine_ok accepted)
  refine ⟨{ added with number := min place program.length }, ?_, meaning⟩
  rw [line?_renumber, line?, List.getElem?_insertIdx_self, if_pos inside]
  rfl

theorem remove_eq (found : program.line? place = some line) :
    program.remove place =
      (some line, renumber { program with lines := program.lines.eraseIdx place }) := by
  rw [remove, found]

theorem line?_remove (found : program.line? place = some line) (index : Nat) :
    (program.remove place).2.line? index =
      (program.line? (if index < place then index else index + 1)).map
        fun line => { line with number := index } := by
  rw [remove_eq found, line?_renumber]
  congr 1
  exact (List.getElem?_eraseIdx ..).trans (apply_ite program.line? ..).symm

/-- A removal moves every other line, and changes nothing of it but its number. -/
theorem Consistent.line?_remove_of_ne (consistent : program.Consistent) (other : place ≠ index)
    (placed : program.line? index = some line) :
    (program.remove place).2.line? (afterRemove place index) =
      some { line with number := afterRemove place index } := by
  cases found : program.line? place with
  | none =>
    -- There is no line to take out, so that nothing stands behind it.
    have inside : index < place :=
      (List.getElem?_eq_some_iff.mp placed).1.trans_le (List.getElem?_eq_none_iff.mp found)
    have same : afterRemove place index = index := by simp [afterRemove, inside.not_gt]
    have number := consistent.numbers index line placed
    rw [remove, found, same, placed, ← number]
  | some old =>
    have source : (if afterRemove place index < place then afterRemove place index
        else afterRemove place index + 1) = index := by
      unfold afterRemove
      split <;> split <;> omega
    rw [line?_remove found, source, placed]
    rfl

/-- A label is undefined once the line that defines it is taken out. -/
theorem Consistent.definitionOf?_remove (consistent : program.Consistent)
    (shorter : (program.remove target).2.Consistent)
    (defined : program.line? target = some definition)
    (defines : definition.statement.names = .label name) :
    (program.remove target).2.definitionOf? name = none := by
  by_contra still
  obtain ⟨index, found⟩ := Option.ne_none_iff_exists'.mp still
  obtain ⟨line, placed, lineDefines⟩ := shorter.definitionOf?_eq_some.mp found
  rw [line?_remove defined] at placed
  obtain ⟨old, oldPlaced, rfl⟩ := Option.map_eq_some_iff.mp placed
  have again := consistent.definitionOf?_eq_some.mpr ⟨old, oldPlaced, lineDefines⟩
  have same := Option.some.inj (again.symm.trans (consistent.definitionOf?_of_names defined defines))
  split at same <;> omega

/-- A text that defines a label is read in front of any line unless the label is defined already. -/
theorem Consistent.exists_insert (consistent : program.Consistent) (place : Nat)
    {comment : Option String} (reads : Source.meaning? text = some (.label name, comment))
    (undefined : program.definitionOf? name = none) :
    ∃ after, program.insert place text = (.ok (), after) := by
  obtain ⟨added, next, accepted⟩ :=
    exists_parseLine consistent (min place program.length) reads (by
      rintro _ ⟨⟩
      exact undefined)
  exact ⟨_, by simp only [insert, accepted]; rfl⟩

/-- A branch follows its label through edits. An insertion or the removal of another line moves the
branch and the definition that it goes to; without the definition the branch faults, until a text that
defines the label is inserted anywhere. -/
theorem Reachable.linked_edits (reached : program.Reachable)
    (defined : program.line? target = some definition)
    (defines : definition.statement.names = .label name)
    (placed : program.line? index = some branch) (branches : branch.BranchesTo name) :
    (∀ place text after, program.insert place text = (.ok (), after) →
        after.Linked branch name (afterInsert place index) (afterInsert place target)) ∧
      (∀ place, place ≠ index → place ≠ target →
        (program.remove place).2.Linked branch name (afterRemove place index)
          (afterRemove place target)) ∧
      (program.remove target).2.Unlinked branch name (afterRemove target index) ∧
      ∀ place text comment, Source.meaning? text = some (.label name, comment) →
        ∃ after, (program.remove target).2.insert place text = (.ok (), after) ∧
          after.Linked branch name (afterInsert place (afterRemove target index))
            (min place (program.remove target).2.length) := by
  have sound := reached.sound
  have consistent := sound.toConsistent
  have apart : target ≠ index := by
    rintro rfl
    obtain ⟨mnemonic, id, shape⟩ := branches
    obtain rfl := Option.some.inj (defined.symm.trans placed)
    rw [shape] at defines
    cases defines
  have shorter := (remove_sound sound target).toConsistent
  have undefined := consistent.definitionOf?_remove shorter defined defines
  have left := consistent.line?_remove_of_ne apart placed
  refine ⟨?_, ?_, shorter.unlinked branches left undefined, ?_⟩
  · intro place text after inserted
    have sound := insert_sound sound place text
    rw [inserted] at sound
    exact sound.linked branches (line?_insert inserted placed) (line?_insert inserted defined) defines
  · intro place otherThanBranch otherThanDefinition
    exact (remove_sound sound place).linked branches
      (consistent.line?_remove_of_ne otherThanBranch placed)
      (consistent.line?_remove_of_ne otherThanDefinition defined) defines
  -- The branch moves a second time, and the new definition stands where its text was inserted.
  · intro place text comment reads
    obtain ⟨after, inserted⟩ := shorter.exists_insert place reads undefined
    have sound := insert_sound (remove_sound sound target) place text
    rw [inserted] at sound
    obtain ⟨added, addedPlaced, meaning⟩ := line?_insert_added inserted
    have addedDefines : .label name = added.statement.names :=
      congrArg Prod.fst (Option.some.inj (reads.symm.trans meaning))
    have moved := line?_insert inserted left
    exact ⟨after, inserted, sound.linked branches moved addedPlaced addedDefines.symm⟩

/-- A loop with a line put in front of it, then without its middle, then without its label, which is
defined again at the end. -/
theorem linked_edits_loop :
    let program := ((empty.edit (.push "loop:")).edit (.push "incq %rax")).edit (.push "jmp loop")
    let branch : Line :=
      ⟨2, .instruction ⟨.uniform .jmp .byte, .unary (.label ⟨⟨0⟩, "loop"⟩)⟩, none, false⟩
    program.Reachable ∧ program.line? 2 = some branch ∧ (∀ flags, branch.isTaken flags = true) ∧
      (program.insert 0 "cltq").2.Linked branch "loop" 3 1 ∧
      (program.remove 1).2.Linked branch "loop" 1 0 ∧
      (program.remove 0).2.Unlinked branch "loop" 1 ∧
      ((program.remove 0).2.insert 7 "loop: # again").2.Linked branch "loop" 1 2 := by
  intro program branch
  have reached : program.Reachable := .edited (.edited (.edited .start _) _) _
  have placed : program.line? 2 = some branch := by decide +kernel
  have defined : program.line? 0 = some ⟨0, .label ⟨⟨0⟩, "loop"⟩, none, false⟩ := by decide +kernel
  obtain ⟨inserted, removed, unlinked, restored⟩ :=
    reached.linked_edits defined rfl placed ⟨_, _, rfl⟩
  obtain ⟨after, again, linked⟩ := restored 7 "loop: # again" (some " again") (by decide +kernel)
  have length : (program.remove 0).2.length = 2 := by decide +kernel
  refine ⟨reached, placed, fun _ => rfl, ?_, removed 1 (by decide) (by decide), unlinked, ?_⟩
  · exact inserted 0 "cltq" _ (Prod.ext (by decide +kernel) rfl)
  · rw [length] at linked
    rw [again]
    exact linked

end Program

end AsmLab
