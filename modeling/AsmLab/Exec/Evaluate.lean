import AsmLab.Exec.Access
import AsmLab.Exec.Alu
/-!
The effect of one instruction and of one line. Operands are read before anything is stored, and a
fault leaves no partly updated machine behind.
-/
namespace AsmLab

namespace Machine

/-- Updates the flags and goes on to the next line. -/
def complete (machine : Machine) (flags : FlagUpdate) : Machine :=
  (machine.updateFlags flags).advance

/-- Stores a quad below the stack pointer, which moves down to it. -/
def push (machine : Machine) (value : Int) : Machine :=
  let address := machine.stackPointer - 8
  (machine.setStackPointer address).store address .quad value

/-- The line to which a return goes, unless it is the return from the top level. -/
def returnLine (machine : Machine) : Except FaultCause Nat :=
  if machine.stackBase ≤ machine.stackPointer then .error .stackUnderflow
  else
    match machine.readMemory machine.stackPointer .quad with
    | .ofNat line => .ok line
    | .negSucc below => .error (.invalidReturnAddress (.negSucc below))

/-- Leaves the current call. At the top level this ends the program. -/
def leave (machine : Machine) : Except FaultCause Machine :=
  if machine.callDepth ≤ 0 then .ok (machine.adjustDepth (-1))
  else do
    let line ← machine.returnLine
    return ((machine.setStackPointer (machine.stackPointer + 8)).adjustDepth (-1)).jump line

end Machine

namespace Instruction

/-- The registers that hold the two halves of a dividend, high half first. -/
def dividendRegisters : Size → Register × Register
  | .byte => (.high .ah, .low .rax .byte)
  | .word => (.low .rdx .word, .low .rax .word)
  | .long => (.low .rdx .long, .low .rax .long)
  | .quad => (.low .rdx .quad, .low .rax .quad)

variable (instruction : Instruction LabelRef) (machine : Machine) (labels : LabelTable)

/-- An operation on two operands whose result replaces the destination. -/
def combine (operation : Size → Int → Int → Alu.Result) : Except FaultCause Machine := do
  let size := instruction.mnemonic.size
  let (source, destination) ← instruction.binary
  let first ← destination.read size machine labels
  let second ← source.read size machine labels
  let result := operation size first second
  return (← destination.write size result.value machine).complete result.flags

/-- An operation on two operands of which only the flags are kept. -/
def compare (operation : Size → Int → Int → Alu.Result) : Except FaultCause Machine := do
  let size := instruction.mnemonic.size
  let (source, destination) ← instruction.binary
  let first ← destination.read size machine labels
  let second ← source.read size machine labels
  return machine.complete (operation size first second).flags

def modify (operation : Size → Int → Alu.Result) : Except FaultCause Machine := do
  let size := instruction.mnemonic.size
  let destination ← instruction.unary
  let result := operation size (← destination.read size machine labels)
  return (← destination.write size result.value machine).complete result.flags

def shift (operation : Size → Int → Nat → Alu.Result) : Except FaultCause Machine := do
  let size := instruction.mnemonic.size
  let (source, destination) ← instruction.binary
  let count := Alu.shiftCount (← source.read .byte machine labels)
  let result := operation size (← destination.read size machine labels) count
  return (← destination.write size result.value machine).complete result.flags

/-- A move of the source, read at a width of its own and then converted. -/
def move (width : Size) (convert : Int → Int) : Except FaultCause Machine := do
  let (source, destination) ← instruction.binary
  let value ← source.read width machine labels
  let stored ← destination.write instruction.mnemonic.size (convert value) machine
  return stored.advance

/-- Stores the address that the source denotes; memory is not read. -/
def loadAddress : Except FaultCause Machine := do
  let size := instruction.mnemonic.size
  let (source, destination) ← instruction.binary
  match source with
  | .memory reference =>
    let address := (reference.address machine.registers).toNat
    return (← destination.write size (size.truncate address) machine).advance
  | other => throw (.internal (.addressOf (other.map LabelRef.name)))

def divide : Except FaultCause Machine := do
  let size := instruction.mnemonic.size
  let (high, low) := dividendRegisters size
  let divisor ← (← instruction.unary).read size machine labels
  if divisor = 0 then throw .divisionByZero
  let dividend :=
    machine.registers.readSigned high <<< size.bits + (machine.registers.read low).toNat
  match Alu.divide? size dividend divisor with
  | none => throw .divisionOverflow
  | some (quotient, remainder) =>
    return ((machine.setRegister low quotient).setRegister high remainder).advance

def pushOperand : Except FaultCause Machine := do
  let value ← (← instruction.unary).read .quad machine labels
  return (machine.push value).advance

/-- The destination is located with the stack pointer already raised. -/
def popOperand : Except FaultCause Machine := do
  let destination ← instruction.unary
  let value := machine.readMemory machine.stackPointer .quad
  let raised := machine.setStackPointer (machine.stackPointer + 8)
  return (← destination.write .quad value raised).advance

def setIf (condition : Bool) : Except FaultCause Machine := do
  let destination ← instruction.unary
  return (← destination.write .byte condition.toInt machine).advance

/-- The line that a branch goes to. -/
def target : Except FaultCause Nat := do
  match ← (← instruction.unary).read .quad machine labels with
  | .ofNat line => return line
  | .negSucc below => throw (.internal (.negativeTarget (.negSucc below)))

/-- A branch that is not taken does not look at its target. -/
def branchIf (condition : Bool) : Except FaultCause Machine := do
  if condition then return machine.jump (← instruction.target machine labels)
  else return machine.advance

def enter : Except FaultCause Machine := do
  let line ← instruction.target machine labels
  return ((machine.push (machine.rip + 1)).adjustDepth 1).jump line

/-- The machine after the instruction, its step not yet counted. -/
def execute : Except FaultCause Machine :=
  match instruction.mnemonic.opcode with
  | .add => instruction.combine machine labels Alu.add
  | .sub => instruction.combine machine labels Alu.sub
  | .imul => instruction.combine machine labels Alu.imul
  | .cmp => instruction.compare machine labels Alu.sub
  | .or => instruction.combine machine labels Alu.or
  | .and => instruction.combine machine labels Alu.and
  | .xor => instruction.combine machine labels Alu.xor
  | .test => instruction.compare machine labels Alu.and
  | .inc => instruction.modify machine labels Alu.inc
  | .dec => instruction.modify machine labels Alu.dec
  | .neg => instruction.modify machine labels Alu.neg
  | .not => instruction.modify machine labels Alu.not
  | .sal | .shl => instruction.shift machine labels Alu.shl
  | .sar => instruction.shift machine labels Alu.sar
  | .shr => instruction.shift machine labels Alu.shr
  | .mov => instruction.move machine labels instruction.mnemonic.size id
  | .movz =>
    instruction.move machine labels instruction.mnemonic.sourceSize
      instruction.mnemonic.sourceSize.zeroExtend
  | .movs => instruction.move machine labels instruction.mnemonic.sourceSize id
  | .lea => instruction.loadAddress machine
  | .idiv => instruction.divide machine labels
  | .push => instruction.pushOperand machine labels
  | .pop => instruction.popOperand machine
  | .clt => .ok (machine.setRegister (.low .rax .quad)
      (machine.registers.readSigned (.low .rax .long))).advance
  | .set condition => instruction.setIf machine (condition.holds machine.flags)
  | .jumpIf condition => instruction.branchIf machine labels (condition.holds machine.flags)
  | .jmp => instruction.branchIf machine labels true
  | .call => instruction.enter machine labels
  | .ret => machine.leave

end Instruction

/-- The machine after a line. Lines without an instruction only advance. -/
def Line.evaluate (line : Line) (machine : Machine) (labels : LabelTable) : Except Fault Machine :=
  match line.instruction? with
  | none => .ok machine.advance.countStep
  | some instruction =>
    match instruction.execute machine labels with
    | .ok next => .ok next.countStep
    | .error cause => .error ⟨line.number, cause⟩

end AsmLab
