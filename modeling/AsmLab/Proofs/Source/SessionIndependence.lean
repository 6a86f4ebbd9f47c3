import AsmLab.Proofs.Source.DraftErrors

/-! What a session can change about the reading of a text. The labels that were read before give other
identifiers to the same names, and they can forbid one more definition; nothing else depends on
them. -/
namespace AsmLab.Source.Session

/-- The reasons for which a session rejects a text. -/
inductive Rejects (session : Session) (text : String) : ParseError → Prop where
  | unread {error : ParseError} (failed : readDraft text = .error error) : Rejects session text error
  | redefined {draft : Draft} {name : String} {id : LabelId} {line : Nat}
      (read : readDraft text = .ok draft) (label : draft.statement = .label name)
      (named : session.labels.name? id = some name)
      (defined : session.labels.line? id = some line) :
      Rejects session text ⟨.duplicateLabel name line, draft.keyword⟩

variable {session next : Session} {text : String} {error : ParseError}

theorem parseLine_of_unread (failed : readDraft text = .error error) :
    session.parseLine text = (.error error, session) := by
  rw [parseLine, failed]

theorem rejects_of_parseLine (rejected : session.parseLine text = (.error error, next)) :
    session.Rejects text error := by
  unfold parseLine at rejected
  split at rejected
  · rename_i failed
    cases rejected
    exact .unread failed
  · rename_i draft read
    split at rejected
    · rename_i failed
      cases rejected
      obtain ⟨name, id, line, label, named, defined, rfl⟩ := resolve_duplicate failed
      exact .redefined read label named defined
    · cases rejected

namespace Rejects

variable (rejects : session.Rejects text error)
include rejects

theorem unread_of_kind (other : error.cause.kind ≠ .duplicateLabel) :
    readDraft text = .error error := by
  cases rejects with
  | unread failed => exact failed
  | redefined => exact absurd rfl other

theorem redefined_of_kind (duplicate : error.cause.kind = .duplicateLabel) :
    ∃ draft name id line, readDraft text = .ok draft ∧ draft.statement = .label name ∧
      session.labels.name? id = some name ∧ session.labels.line? id = some line ∧
        error = ⟨.duplicateLabel name line, draft.keyword⟩ := by
  cases rejects with
  | unread failed => exact absurd duplicate (readDraft_intrinsic text error failed)
  | redefined read label named defined =>
    exact ⟨_, _, _, _, read, label, named, defined, rfl⟩

end Rejects

/-- What one session rejects for another reason than a second definition, every session rejects with
the same error. What one session accepts, another one accepts with the same label names and comment,
unless it is the definition of a label that is already defined there. -/
theorem parseLine_independent (first second : Session) (text : String) :
    (∀ error next, first.parseLine text = (.error error, next) →
        error.cause.kind ≠ .duplicateLabel → second.parseLine text = (.error error, second)) ∧
      ∀ line next, first.parseLine text = (.ok line, next) →
        (∃ other after, second.parseLine text = (.ok other, after) ∧
            other.statement.names = line.statement.names ∧ other.comment = line.comment) ∨
          ∃ error name id number, second.parseLine text = (.error error, second) ∧
            error.cause.kind = .duplicateLabel ∧ line.statement.names = .label name ∧
              second.labels.name? id = some name ∧ second.labels.line? id = some number := by
  constructor
  · intro error next rejected other
    exact parseLine_of_unread ((rejects_of_parseLine rejected).unread_of_kind other)
  · intro line next accepted
    obtain ⟨keyword, read⟩ := (parseLine_ok accepted).draft
    cases outcome : second.parseLine text with
    | mk result after =>
      cases result with
      | ok other =>
        obtain ⟨otherKeyword, again⟩ := (parseLine_ok outcome).draft
        obtain ⟨names, comment, -⟩ := Draft.mk.inj (Except.ok.inj (again.symm.trans read))
        exact .inl ⟨other, after, rfl, names, comment⟩
      | error error =>
        right
        cases rejects_of_parseLine outcome with
        | unread failed =>
          rw [failed] at read
          cases read
        | redefined again label named defined =>
          obtain rfl := Except.ok.inj (again.symm.trans read)
          exact ⟨_, _, _, _, by rw [parseLine_error outcome], rfl, label, named, defined⟩

/-- An instruction with one operand too few, and a definition that only the empty session accepts. -/
theorem parseLine_independent_loop :
    let used : Session := ⟨3, ⟨[⟨"done", none⟩, ⟨"loop", some 1⟩]⟩⟩
    (∃ error, used.parseLine "movq %rax" = (.error error, used) ∧
        empty.parseLine "movq %rax" = (.error error, empty)) ∧
      ∃ line next error, empty.parseLine "loop: # again" = (.ok line, next) ∧
        used.parseLine "loop: # again" = (.error error, used) ∧
          error.cause.kind = .duplicateLabel := by
  intro used
  let count : ParseError := ⟨.operandCount "movq" 2, ⟨5, 9⟩⟩
  let line : Line := ⟨0, .label ⟨⟨0⟩, "loop"⟩, some " again", false⟩
  have rejected : used.parseLine "movq %rax" = (.error count, used) := by decide +kernel
  have accepted : empty.parseLine "loop: # again" = (.ok line, ⟨1, ⟨[⟨"loop", some 0⟩]⟩⟩) := by
    decide +kernel
  refine ⟨⟨count, rejected, ?_⟩, ?_⟩
  · exact (parseLine_independent used empty _).1 _ _ rejected nofun
  · rcases (parseLine_independent empty used _).2 _ _ accepted with
      ⟨other, after, again, -⟩ | ⟨error, name, id, number, failed, kind, -⟩
    · have fails : (used.parseLine "loop: # again").1.isOk = false := by decide +kernel
      rw [again] at fails
      cases fails
    · exact ⟨line, _, error, accepted, failed, kind⟩

end AsmLab.Source.Session
