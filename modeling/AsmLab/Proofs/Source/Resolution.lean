import AsmLab.Proofs.Isa.LabelNames
import AsmLab.Proofs.Source.Acceptance
import AsmLab.Source.Session

/-! What reading a line does to a session. A rejected line leaves it as it was; an accepted line takes
the next number, names its labels through the table, and defines at most one of them. -/
namespace AsmLab

/-- The labels that an operand names. -/
def Operand.labels : Operand LabelRef → List LabelRef
  | .label ref => [ref]
  | .immediate _ | .register _ | .memory _ => []

/-- The labels that a statement defines or names. -/
def Statement.labels : Statement LabelRef → List LabelRef
  | .label ref => [ref]
  | .instruction body => body.operands.toList.flatMap Operand.labels
  | .blank | .comment => []

/-- The label that a statement defines. -/
def Statement.definition? : Statement LabelRef → Option LabelId
  | .label ref => some ref.id
  | .instruction _ | .blank | .comment => none

theorem Line.definedLabel?_eq (line : Line) : line.definedLabel? = line.statement.definition? := by
  unfold definedLabel? Statement.definition?
  cases line.statement <;> rfl

/-- The identifier of every label stands for its name. -/
def LabelTable.Knows (table : LabelTable) (labels : List LabelRef) : Prop :=
  ∀ label ∈ labels, table.name? label.id = some label.name

theorem LabelTable.Knows.mono {old new : LabelTable} {labels : List LabelRef}
    (known : old.Knows labels) (grown : old.names <+: new.names) : new.Knows labels :=
  fun label member => name?_mono grown (known label member)

theorem LabelTable.Knows.exists_name {table : LabelTable} {statement : Statement LabelRef}
    {id : LabelId} (known : table.Knows statement.labels) (defines : statement.definition? = some id) :
    ∃ name, table.name? id = some name := by
  cases statement with
  | label ref =>
    obtain rfl := Option.some.inj defines
    exact ⟨ref.name, known ref (List.mem_singleton.mpr rfl)⟩
  | blank => cases defines
  | comment => cases defines
  | instruction body => cases defines

theorem LabelTable.knows_nil (table : LabelTable) : table.Knows [] := by
  simp [Knows]

namespace Source

variable (table : LabelTable)

theorem resolveOperand_extends (operand : Operand String) :
    table.Extends (resolveOperand table operand).2 := by
  cases operand with
  | label name => exact table.intern_extends name
  | immediate _ => exact .refl table
  | register _ => exact .refl table
  | memory _ => exact .refl table

theorem resolveOperand_names (operand : Operand String) :
    (resolveOperand table operand).1.map LabelRef.name = operand := by
  cases operand <;> rfl

theorem resolveOperand_knows (operand : Operand String) :
    (resolveOperand table operand).2.Knows (resolveOperand table operand).1.labels := by
  cases operand with
  | label name => simpa [LabelTable.Knows, resolveOperand, Operand.labels] using table.name?_intern name
  | immediate _ => exact LabelTable.knows_nil _
  | register _ => exact LabelTable.knows_nil _
  | memory _ => exact LabelTable.knows_nil _

theorem resolveOperands_extends (operands : Operands String) :
    table.Extends (resolveOperands table operands).2 := by
  cases operands with
  | nullary => exact .refl table
  | unary operand => exact resolveOperand_extends table operand
  | binary source destination =>
    exact (resolveOperand_extends table source).trans (resolveOperand_extends _ destination)

theorem resolveOperands_names (operands : Operands String) :
    (resolveOperands table operands).1.map LabelRef.name = operands := by
  cases operands <;> simp [resolveOperands, Operands.map, resolveOperand_names]

theorem resolveOperands_knows (operands : Operands String) :
    (resolveOperands table operands).2.Knows
      ((resolveOperands table operands).1.toList.flatMap Operand.labels) := by
  cases operands with
  | nullary => exact LabelTable.knows_nil _
  | unary operand => simpa [resolveOperands, Operands.toList] using resolveOperand_knows table operand
  | binary source destination =>
    have first := (resolveOperand_knows table source).mono
      (resolveOperand_extends _ destination).names
    have second := resolveOperand_knows (resolveOperand table source).2 destination
    intro label member
    simp only [resolveOperands, Operands.toList, List.flatMap_cons, List.flatMap_nil,
      List.append_nil, List.mem_append] at member
    exact member.elim (first label) (second label)

/-- What a statement that stands on a line did to the table. -/
structure Resolves (old : LabelTable) (number : Nat) (statement : Statement LabelRef)
    (new : LabelTable) : Prop where
  names : old.names <+: new.names
  distinct : old.names.Nodup → new.names.Nodup
  known : new.Knows statement.labels
  fresh : ∀ id, statement.definition? = some id → old.line? id = none
  lines : ∀ id, new.line? id =
    if statement.definition? = some id then some number else old.line? id

theorem Resolves.of_extends {old new : LabelTable} {number : Nat} {statement : Statement LabelRef}
    (grown : old.Extends new) (known : new.Knows statement.labels)
    (nothing : statement.definition? = none) : Resolves old number statement new where
  names := grown.names
  distinct := grown.distinct
  known := known
  fresh := by simp [nothing]
  lines := by simp [nothing, grown.lines]

namespace Session

variable {session next : Session}

theorem resolve_ok {keyword : Span} {statement : Statement String} {resolved : Statement LabelRef}
    {labels : LabelTable} (found : session.resolve keyword statement = (.ok resolved, labels)) :
    resolved.names = statement ∧ Resolves session.labels session.nextLine resolved labels := by
  cases statement with
  | blank =>
    cases found
    exact ⟨rfl, .of_extends (.refl _) (LabelTable.knows_nil _) rfl⟩
  | comment =>
    cases found
    exact ⟨rfl, .of_extends (.refl _) (LabelTable.knows_nil _) rfl⟩
  | label name =>
    have grown := session.labels.intern_extends name
    have named := session.labels.name?_intern name
    simp only [resolve] at found
    split at found
    · cases found
    · rename_i undefined
      cases found
      refine ⟨rfl, ?_, ?_, ?_, ?_, ?_⟩
      · simpa using grown.names
      · simpa using grown.distinct
      · intro label member
        obtain rfl := List.mem_singleton.mp member
        rwa [LabelTable.name?_eq, LabelTable.names_define, ← LabelTable.name?_eq]
      · rintro id ⟨⟩
        rwa [← grown.lines]
      · intro id
        rw [LabelTable.line?_define named, grown.lines]
        simp [Statement.definition?, eq_comm]
  | instruction body =>
    cases found
    have names := resolveOperands_names session.labels body.operands
    exact ⟨congrArg (fun operands => Statement.instruction ⟨body.mnemonic, operands⟩) names,
      .of_extends (resolveOperands_extends _ body.operands)
        (resolveOperands_knows _ body.operands) rfl⟩

theorem resolve_error {keyword : Span} {statement : Statement String} {error : ParseError}
    {labels : LabelTable} (failed : session.resolve keyword statement = (.error error, labels)) :
    labels = session.labels := by
  cases statement with
  | blank => cases failed
  | comment => cases failed
  | label name =>
    simp only [resolve] at failed
    split at failed
    · rename_i line defined
      cases failed
      exact LabelTable.intern_of_defined defined
    · cases failed
  | instruction body => cases failed

/-- Only a second definition of a label is rejected. -/
theorem resolve_duplicate {keyword : Span} {statement : Statement String} {error : ParseError}
    {labels : LabelTable} (failed : session.resolve keyword statement = (.error error, labels)) :
    ∃ name id line, statement = .label name ∧ session.labels.name? id = some name ∧
      session.labels.line? id = some line ∧ error = ⟨.duplicateLabel name line, keyword⟩ := by
  cases statement with
  | blank => cases failed
  | comment => cases failed
  | instruction body => cases failed
  | label name =>
    simp only [resolve] at failed
    split at failed
    · rename_i line defined
      have same := LabelTable.intern_of_defined defined
      have named := session.labels.name?_intern name
      rw [same] at named defined
      cases failed
      exact ⟨name, _, line, rfl, named, defined, rfl⟩
    · cases failed

/-- A statement is looked up with the same outcome wherever its first word stands. -/
theorem resolve_keyword {keyword other : Span} {statement : Statement String}
    {resolved : Statement LabelRef} {labels : LabelTable}
    (found : session.resolve keyword statement = (.ok resolved, labels)) :
    session.resolve other statement = (.ok resolved, labels) := by
  cases statement with
  | blank => exact found
  | comment => exact found
  | label name =>
    simp only [resolve] at *
    split at found
    · cases found
    · exact found
  | instruction body => exact found

/-- A session that accepted a line. -/
structure Accepts (session : Session) (text : String) (line : Line) (next : Session) : Prop where
  draft : ∃ keyword, readDraft text = .ok ⟨line.statement.names, line.comment, keyword⟩
  number : line.number = session.nextLine
  unmarked : line.breakpoint = false
  nextLine : next.nextLine = session.nextLine + 1
  labels : Resolves session.labels session.nextLine line.statement next.labels

theorem parseLine_ok {text : String} {line : Line}
    (accepted : session.parseLine text = (.ok line, next)) : session.Accepts text line next := by
  unfold parseLine at accepted
  split at accepted
  · cases accepted
  · rename_i draft read
    split at accepted
    · cases accepted
    · rename_i statement labels found
      cases accepted
      obtain ⟨same, resolved⟩ := resolve_ok found
      exact ⟨⟨draft.keyword, by rw [same]; exact read⟩, rfl, rfl, rfl, resolved⟩

theorem parseLine_error {text : String} {error : ParseError}
    (rejected : session.parseLine text = (.error error, next)) : next = session := by
  unfold parseLine at rejected
  split at rejected
  · cases rejected
    rfl
  · split at rejected
    · rename_i failed
      cases rejected
      rw [resolve_error failed]
    · cases rejected

theorem Accepts.wellFormed {text : String} {line : Line}
    (accepted : session.Accepts text line next) : line.WellFormed := by
  obtain ⟨keyword, read⟩ := accepted.draft
  have wellFormed := readDraft_wellFormed read
  exact ⟨wellFormed.statement, wellFormed.comment⟩

/-- A text that reads on its own is accepted unless the label that it defines has a line already. -/
theorem parseLine_of_undefined {text : String} {draft : Draft} (read : readDraft text = .ok draft)
    (undefined : ∀ name, draft.statement = .label name → ∀ id,
      session.labels.name? id = some name → session.labels.line? id = none) :
    ∃ line next, session.parseLine text = (.ok line, next) := by
  unfold parseLine
  rw [read]
  cases resolved : session.resolve draft.keyword draft.statement with
  | mk result labels =>
    cases result with
    | ok statement =>
      simp only [resolved]
      exact ⟨_, _, rfl⟩
    | error error =>
      obtain ⟨name, id, line, labelled, named, defined, _⟩ := resolve_duplicate resolved
      simp [undefined name labelled id named] at defined

/-- Texts that say the same are accepted alike. -/
theorem parseLine_of_draft {text other : String} {line : Line} {keyword : Span}
    (accepted : session.parseLine text = (.ok line, next))
    (same : readDraft other = .ok ⟨line.statement.names, line.comment, keyword⟩) :
    session.parseLine other = (.ok line, next) := by
  unfold parseLine at *
  split at accepted
  · cases accepted
  · rename_i draft read
    split at accepted
    · cases accepted
    · rename_i statement labels found
      cases accepted
      rw [same]
      simp only [(resolve_ok found).1, resolve_keyword found]

end Session

end Source

end AsmLab
