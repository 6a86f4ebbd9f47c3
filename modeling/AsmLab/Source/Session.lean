import AsmLab.Source.Draft
/-!
Reading lines one after the other. A session hands out line numbers and collects the label names that
the lines mention.
-/
namespace AsmLab.Source

/-- An operand whose label names are entries of a table, which gains the new ones. -/
def resolveOperand (labels : LabelTable) : Operand String → Operand LabelRef × LabelTable
  | .immediate constant => (.immediate constant, labels)
  | .register register => (.register register, labels)
  | .memory reference => (.memory reference, labels)
  | .label name =>
    let (id, labels) := labels.intern name
    (.label ⟨id, name⟩, labels)

def resolveOperands (labels : LabelTable) : Operands String → Operands LabelRef × LabelTable
  | .nullary => (.nullary, labels)
  | .unary operand =>
    let (operand, labels) := resolveOperand labels operand
    (.unary operand, labels)
  | .binary source destination =>
    let (source, labels) := resolveOperand labels source
    let (destination, labels) := resolveOperand labels destination
    (.binary source destination, labels)

structure Session where
  /-- The number that the next line gets. -/
  nextLine : Nat
  labels : LabelTable
  deriving DecidableEq, Repr

namespace Session

def empty : Session := ⟨0, .empty⟩

def setLine (session : Session) (number : Nat) : Session :=
  { session with nextLine := number }

/-- Looks the label names of a statement up and defines the label that it defines, if any. -/
def resolve (session : Session) (keyword : Span) (statement : Statement String) :
    Except ParseError (Statement LabelRef) × LabelTable :=
  match statement with
  | .blank => (.ok .blank, session.labels)
  | .comment => (.ok .comment, session.labels)
  | .label name =>
    let (id, labels) := session.labels.intern name
    match labels.line? id with
    | some line => (.error ⟨.duplicateLabel name line, keyword⟩, labels)
    | none => (.ok (.label ⟨id, name⟩), labels.define id session.nextLine)
  | .instruction body =>
    let (operands, labels) := resolveOperands session.labels body.operands
    (.ok (.instruction ⟨body.mnemonic, operands⟩), labels)

/-- Reads a line. An accepted line gets the next number. -/
def parseLine (session : Session) (text : String) : Except ParseError Line × Session :=
  match readDraft text with
  | .error error => (.error error, session)
  | .ok draft =>
    match session.resolve draft.keyword draft.statement with
    | (.error error, labels) => (.error error, { session with labels })
    | (.ok statement, labels) =>
      (.ok ⟨session.nextLine, statement, draft.comment, false⟩, ⟨session.nextLine + 1, labels⟩)

end Session

end AsmLab.Source
