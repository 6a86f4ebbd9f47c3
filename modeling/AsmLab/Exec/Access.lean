import AsmLab.Exec.Fault
import AsmLab.Machine.State
/-!
Reading and storing through operands. A register is read and stored at its own width, memory and
constants at the width of the instruction, and a label reads as the line that defines it.
-/
namespace AsmLab

/-- The effective address, modulo the address space. -/
def MemoryRef.address (reference : MemoryRef) (registers : RegisterFile) : Address :=
  let index := reference.index.elim 0 fun register =>
    registers.read register * BitVec.ofNat 64 reference.scale
  registers.read reference.base + index + reference.displacement

namespace Operand

/-- The signed value of an operand. -/
def read (operand : Operand LabelRef) (size : Size) (machine : Machine) (labels : LabelTable) :
    Except FaultCause Int :=
  match operand with
  | immediate constant => .ok (size.truncate constant.value)
  | register reg => .ok (machine.registers.readSigned reg)
  | memory reference => .ok (machine.readMemory (reference.address machine.registers) size)
  | label reference =>
    match labels.line? reference.id with
    | some line => .ok line
    | none => .error (.unresolvedLabel reference.name)

/-- Stores a value into the place that an operand denotes. -/
def write (operand : Operand LabelRef) (size : Size) (value : Int) (machine : Machine) :
    Except FaultCause Machine :=
  match operand with
  | immediate constant => .error (.internal (.constantDestination constant))
  | register reg => .ok (machine.setRegister reg value)
  | memory reference => .ok (machine.store (reference.address machine.registers) size value)
  | label reference => .error (.internal (.labelDestination reference.name))

end Operand

namespace Instruction

def unary (instruction : Instruction LabelRef) : Except FaultCause (Operand LabelRef) :=
  match instruction.operands with
  | .unary operand => .ok operand
  | operands =>
    .error (.internal (.operandCount instruction.mnemonic operands.toList.length))

/-- The source and the destination. -/
def binary (instruction : Instruction LabelRef) :
    Except FaultCause (Operand LabelRef × Operand LabelRef) :=
  match instruction.operands with
  | .binary source destination => .ok (source, destination)
  | operands =>
    .error (.internal (.operandCount instruction.mnemonic operands.toList.length))

end Instruction

end AsmLab
