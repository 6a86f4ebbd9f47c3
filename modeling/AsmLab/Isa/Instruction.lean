import AsmLab.Isa.Mnemonic
import AsmLab.Isa.Operand
/-!
Instructions, statements and program lines, and the canonical text of each. Two lines that differ in
spacing, letter case or number spelling only have the same text.
-/
namespace AsmLab

inductive Operands (Label : Type) where
  | nullary
  | unary (operand : Operand Label)
  | binary (source destination : Operand Label)
  deriving DecidableEq, Repr

namespace Operands

def toList {Label : Type} : Operands Label → List (Operand Label)
  | nullary => []
  | unary operand => [operand]
  | binary source destination => [source, destination]

def map {Name Label : Type} (refer : Name → Label) : Operands Name → Operands Label
  | nullary => nullary
  | unary operand => unary (operand.map refer)
  | binary source destination => binary (source.map refer) (destination.map refer)

end Operands

structure Instruction (Label : Type) where
  mnemonic : Mnemonic
  operands : Operands Label
  deriving DecidableEq, Repr

namespace Instruction

def map {Name Label : Type} (refer : Name → Label) (instruction : Instruction Name) :
    Instruction Label :=
  ⟨instruction.mnemonic, instruction.operands.map refer⟩

def text (instruction : Instruction String) : String :=
  match instruction.operands with
  | .nullary => instruction.mnemonic.text
  | .unary operand => instruction.mnemonic.text ++ " " ++ operand.text
  | .binary source destination =>
    instruction.mnemonic.text ++ " " ++ source.text ++ ", " ++ destination.text

/-- Registers that an instruction touches without naming them. -/
def implicitRegisters (mnemonic : Mnemonic) : List Gpr :=
  match mnemonic.opcode with
  | .push | .pop | .call | .ret => [.rsp]
  | .idiv => if mnemonic.size = .byte then [.rax] else [.rax, .rdx]
  | .clt => [.rax]
  | _ => []

/-- The 64-bit registers that an instruction may read or write, in listing order. -/
def usedRegisters {Label : Type} (instruction : Instruction Label) : List Gpr :=
  let touched :=
    instruction.operands.toList.flatMap Operand.registers ++ implicitRegisters instruction.mnemonic
  Gpr.all.filter (· ∈ touched)

end Instruction

inductive Statement (Label : Type) where
  | blank
  /-- A line that holds a comment and nothing else. -/
  | comment
  | label (label : Label)
  | instruction (instruction : Instruction Label)
  deriving DecidableEq, Repr

namespace Statement

def map {Name Label : Type} (refer : Name → Label) : Statement Name → Statement Label
  | blank => blank
  | comment => comment
  | label name => label (refer name)
  | instruction body => instruction (body.map refer)

def text : Statement String → String
  | blank | comment => ""
  | label name => name ++ ":"
  | instruction body => body.text

/-- The statement with its labels given by name only. -/
def names (statement : Statement LabelRef) : Statement String :=
  statement.map LabelRef.name

end Statement

/-- One line of a program. -/
structure Line where
  number : Nat
  statement : Statement LabelRef
  /-- What follows the number sign, if there is one. -/
  comment : Option String
  breakpoint : Bool
  deriving DecidableEq, Repr

namespace Line

def instruction? (line : Line) : Option (Instruction LabelRef) :=
  match line.statement with
  | .instruction body => some body
  | _ => none

def usedRegisters (line : Line) : List Gpr :=
  line.instruction?.elim [] Instruction.usedRegisters

/-- The label that the line defines. -/
def definedLabel? (line : Line) : Option LabelId :=
  match line.statement with
  | .label label => some label.id
  | _ => none

def text (line : Line) : String :=
  let body := line.statement.names.text
  match line.comment with
  | none => body
  | some comment => if body.isEmpty then "#" ++ comment else body ++ " #" ++ comment

end Line

end AsmLab
