import AsmLab.Proofs.Program.BranchTargets
import AsmLab.Proofs.Program.RejectedEdits
import AsmLab.Proofs.Source.SessionIndependence

/-! The line that the rejection of a second definition tells. A text that is read at the end of a
program or in front of a line is compared with the definitions where they stand. A text that is to
replace a line is compared with the program without that line, which is put back afterwards, so a
definition behind it is told one line too early. -/
namespace AsmLab.Program

open Source (ErrorCause ParseError Session)

/-- The error tells the line `told` for the definition of a label, and the program has that definition
on the line `defined` and nowhere else. -/
structure Redefined (program : Program) (error : ParseError) (name : String) (told defined : Nat) :
    Prop where
  cause : error.cause = .duplicateLabel name told
  message : error.message =
    "Label '" ++ name ++ "' is already defined on line " ++ Numeral.decimal told
  definition : ∀ index, (∃ line, program.line? index = some line ∧
    line.statement.names = .label name) ↔ index = defined

variable {program rest : Program} {text name : String} {error : ParseError} {index : Nat}

theorem Consistent.definition_iff (consistent : program.Consistent) {defined : Nat}
    (found : program.definitionOf? name = some defined) (index : Nat) :
    (∃ line, program.line? index = some line ∧ line.statement.names = .label name) ↔
      index = defined := by
  simp only [← Statement.definedName?_eq_some, ← consistent.definitionOf?_eq_some, found,
    Option.some.injEq]
  exact eq_comm

/-- A text that is rejected as a second definition is told where the first one is. -/
theorem Consistent.redefined (consistent : program.Consistent) {number : Nat} {next : Session}
    (rejected : (program.session.setLine number).parseLine text = (.error error, next))
    (kind : error.cause.kind = .duplicateLabel) :
    ∃ name line, program.Redefined error name line line := by
  obtain ⟨draft, name, id, line, _, _, named, defined, rfl⟩ :=
    (Session.rejects_of_parseLine rejected).redefined_of_kind kind
  obtain ⟨definition, placed, label⟩ := consistent.exists_definition named defined
  have found := consistent.definitionOf?_of_names placed (by rw [label]; rfl)
  exact ⟨name, line, rfl, rfl, consistent.definition_iff found⟩

theorem push_redefined (consistent : program.Consistent)
    (rejected : program.push text = (.error error, rest))
    (kind : error.cause.kind = .duplicateLabel) :
    ∃ name line, program.Redefined error name line line := by
  unfold push at rejected
  split at rejected
  · rename_i failed
    cases rejected
    exact consistent.redefined failed kind
  · cases rejected

theorem insert_redefined (consistent : program.Consistent)
    (rejected : program.insert index text = (.error error, rest))
    (kind : error.cause.kind = .duplicateLabel) :
    ∃ name line, program.Redefined error name line line := by
  unfold insert at rejected
  simp only at rejected
  split at rejected
  · rename_i failed
    cases rejected
    exact consistent.redefined failed kind
  · cases rejected

/-- What is defined without a line is defined with it, at most one line further on. -/
theorem Redefined.of_remove (consistent : program.Consistent) {old : Line} {line : Nat}
    (found : program.line? index = some old)
    (redefined : (program.remove index).2.Redefined error name line line) :
    ∃ defined, program.Redefined error name (afterRemove index defined) defined := by
  obtain ⟨moved, placed, defines⟩ := (redefined.definition line).mpr rfl
  rw [line?_remove found] at placed
  obtain ⟨definition, stands, rfl⟩ := Option.map_eq_some_iff.mp placed
  have shift : afterRemove index (if line < index then line else line + 1) = line := by
    unfold afterRemove
    split <;> split <;> omega
  refine ⟨_, ?_, ?_, consistent.definition_iff (consistent.definitionOf?_of_names stands defines)⟩
  · rw [shift]
    exact redefined.cause
  · rw [shift]
    exact redefined.message

theorem replace_redefined (sound : program.Sound)
    (rejected : program.replace index text = (.error error, rest))
    (kind : error.cause.kind = .duplicateLabel) :
    ∃ name line, program.Redefined error name (afterRemove index line) line := by
  have consistent := sound.toConsistent
  cases found : program.line? index with
  | none =>
    rw [replace, remove, found] at rejected
    obtain ⟨name, line, redefined⟩ := insert_redefined consistent rejected kind
    -- There is no line to take out, so the definition stands in front of the place.
    obtain ⟨definition, placed, _⟩ := (redefined.definition line).mpr rfl
    have inside : line < program.length := (List.getElem?_eq_some_iff.mp placed).1
    have outside : program.length ≤ index := List.getElem?_eq_none_iff.mp found
    have same : afterRemove index line = line := by
      rw [afterRemove, if_neg (by omega), Nat.sub_zero]
    exact ⟨name, line, by rwa [same]⟩
  | some old =>
    have shorter := (remove_sound sound index).toConsistent
    rw [replace, remove_eq found] at rejected
    rw [remove_eq found] at shorter
    simp only at rejected
    split at rejected
    · cases rejected
    · rename_i failed
      cases rejected
      obtain ⟨name, line, redefined⟩ := insert_redefined shorter failed kind
      have shifted : ∃ defined, program.Redefined error name (afterRemove index defined) defined := by
        apply Redefined.of_remove consistent found
        rwa [remove_eq found]
      obtain ⟨defined, redefined⟩ := shifted
      exact ⟨name, defined, redefined⟩

/-- A rejected second definition is told the line of the first one as the program has it afterwards,
unless it was to replace a line in front of that. Then it is told the line before. -/
theorem Reachable.redefinition_told (reached : program.Reachable)
    (kind : error.cause.kind = .duplicateLabel) :
    (program.push text = (.error error, rest) →
        ∃ name line, rest.Redefined error name line line) ∧
      (∀ index, program.insert index text = (.error error, rest) →
        ∃ name line, rest.Redefined error name line line) ∧
      ∀ index, program.replace index text = (.error error, rest) →
        ∃ name line, rest.Redefined error name (afterRemove index line) line ∧
          (afterRemove index line = line ↔ ¬ index < line) := by
  have sound := reached.sound
  have consistent := sound.toConsistent
  refine ⟨?_, ?_, ?_⟩
  · intro rejected
    obtain rfl := push_error consistent.next rejected
    exact push_redefined consistent rejected kind
  · intro index rejected
    obtain rfl := consistent.indexed.insert_rejected rejected
    exact insert_redefined consistent rejected kind
  · intro index rejected
    obtain rfl := consistent.indexed.replace_rejected rejected
    obtain ⟨name, line, redefined⟩ := replace_redefined sound rejected kind
    refine ⟨name, line, redefined, ?_⟩
    unfold afterRemove
    split <;> omega

/-- Definitions in front of the line that is to be replaced and behind it. -/
theorem redefinition_told_around :
    let program := ((empty.edit (.push "a:")).edit (.push "cltq")).edit (.push "b:")
    program.Reachable ∧
      (∃ error rest, program.replace 1 "a:" = (.error error, rest) ∧
        rest.Redefined error "a" 0 0) ∧
      ∃ error rest, program.replace 1 "b: # again" = (.error error, rest) ∧
        rest.Redefined error "b" 1 2 := by
  intro program
  have reached : program.Reachable := .edited (.edited (.edited .start _) _) _
  let first : ParseError := ⟨.duplicateLabel "a" 0, ⟨0, 1⟩⟩
  let second : ParseError := ⟨.duplicateLabel "b" 1, ⟨0, 1⟩⟩
  have failsFirst : program.replace 1 "a:" = (.error first, program) := by decide +kernel
  have failsSecond : program.replace 1 "b: # again" = (.error second, program) := by decide +kernel
  refine ⟨reached, ⟨first, program, failsFirst, ?_⟩, ⟨second, program, failsSecond, ?_⟩⟩
  · obtain ⟨name, line, redefined, -⟩ := (reached.redefinition_told rfl).2.2 1 failsFirst
    obtain ⟨rfl, told⟩ := ErrorCause.duplicateLabel.inj redefined.cause
    have front : line = 0 := by
      unfold afterRemove at told
      split at told <;> omega
    subst front
    exact redefined
  · obtain ⟨name, line, redefined, -⟩ := (reached.redefinition_told rfl).2.2 1 failsSecond
    obtain ⟨rfl, told⟩ := ErrorCause.duplicateLabel.inj redefined.cause
    have behind : (program.line? 1).all (·.statement.names ≠ .label "b") = true := by decide +kernel
    obtain ⟨definition, placed, defines⟩ := (redefined.definition line).mpr rfl
    have further : line = 2 := by
      rcases Nat.lt_trichotomy line 1 with early | rfl | late
      · rw [afterRemove, if_neg (by omega)] at told
        omega
      · simp [placed, defines] at behind
      · rw [afterRemove, if_pos late] at told
        omega
    subst further
    exact redefined

/-- A definition behind the line that is to be replaced is not told where it is. -/
theorem not_redefinition_told :
    ¬ ∀ (program rest : Program) (index told : Nat) (text name : String) (error : ParseError),
        program.Reachable → program.replace index text = (.error error, rest) →
          error.cause = .duplicateLabel name told →
            ∃ line, rest.line? told = some line ∧ line.statement.names = .label name := by
  intro all
  let program := (empty.edit (.push "incq %rax")).edit (.push "b:")
  have reached : program.Reachable := .edited (.edited .start _) _
  have fails : program.replace 0 "b:" =
      (.error ⟨.duplicateLabel "b" 0, ⟨0, 1⟩⟩, program) := by decide +kernel
  obtain ⟨line, placed, defines⟩ := all program program 0 0 "b:" "b" _ reached fails rfl
  have other : (program.line? 0).all (·.statement.names ≠ .label "b") = true := by decide +kernel
  simp [placed, defines] at other

end AsmLab.Program
