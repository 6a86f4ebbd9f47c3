import AsmLab.Exec.Evaluate
import AsmLab.Proofs.Exec.Int128

/-! The evaluation of a line once more, in numbers of 128 bits. Additions, multiplications and shifts
wrap around, and each is noted together with the exact numbers that it stands for. -/
namespace AsmLab.FixedWidth

/-- A calculation, told by the exact numbers that go into it. -/
inductive Calculation where
  | sum (left right : Int)
  | difference (left right : Int)
  | product (left right : Int)
  | negation (value : Int)
  | shiftedLeft (value : Int) (amount : Nat)
  | shiftedRight (value : Int) (amount : Nat)
  /-- Shifts to the left and back that cut a number down to a width. -/
  | cut (size : Size) (value : Int)
  /-- A dividend, of its shifted high half and its unsigned low one. -/
  | joined (high low : Int)
  | quotient (dividend divisor : Int)
  | remainder (dividend divisor : Int)
  deriving DecidableEq, Repr

namespace Calculation

/-- What the calculation gives over the integers. -/
def exact : Calculation → Int
  | sum left right => left + right
  | difference left right => left - right
  | product left right => left * right
  | negation value => -value
  | shiftedLeft value amount => value <<< amount
  | shiftedRight value amount => value >>> amount
  | cut size value => size.truncate value
  | joined high low => high + low
  | quotient dividend divisor => dividend.tdiv divisor
  | remainder dividend divisor => dividend.tmod divisor

/-- By how many bits the calculation shifts. -/
def amount? : Calculation → Option Nat
  | shiftedLeft _ amount | shiftedRight _ amount => some amount
  | cut size _ => some (128 - size.bits)
  | _ => none

end Calculation

/-- A result or a fault, and the calculations on the way to it. -/
structure Traced (Value : Type) where
  outcome : Except FaultCause Value
  calculations : List Calculation

namespace Traced

variable {Value : Type}

instance : Monad Traced where
  pure value := ⟨.ok value, []⟩
  bind first next :=
    match first.outcome with
    | .ok value => ⟨(next value).outcome, first.calculations ++ (next value).calculations⟩
    | .error cause => ⟨.error cause, first.calculations⟩

def fault (cause : FaultCause) : Traced Value :=
  ⟨.error cause, []⟩

/-- Nothing is calculated. -/
def lift (outcome : Except FaultCause Value) : Traced Value :=
  ⟨outcome, []⟩

def note (calculation : Calculation) (value : Value) : Traced Value :=
  ⟨.ok value, [calculation]⟩

end Traced

open Int128 (zeroExtend fits isOdd ofWord)

section Numbers

variable (left right value : Int128) (amount : Nat) (size : Size)

def add : Traced Int128 :=
  .note (.sum left.toInt right.toInt) (left + right)

def sub : Traced Int128 :=
  .note (.difference left.toInt right.toInt) (left - right)

def mul : Traced Int128 :=
  .note (.product left.toInt right.toInt) (left * right)

def neg : Traced Int128 :=
  .note (.negation value.toInt) (-value)

def shiftLeft : Traced Int128 :=
  .note (.shiftedLeft value.toInt amount) (value <<< amount)

/-- The sign moves in at the top. -/
def shiftRight : Traced Int128 :=
  .note (.shiftedRight value.toInt amount) (value.sshiftRight amount)

def truncate : Traced Int128 :=
  .note (.cut size value.toInt) (Int128.cut size value)

/-- The bit to which an amount leads. -/
def bit : Traced Bool := do
  return isOdd (← shiftRight value amount)

/-- Puts a low half beside a high one. -/
def join (high low : Int128) : Traced Int128 :=
  .note (.joined high.toInt low.toInt) (high ||| low)

/-- Both divisions fail where the quotient is no number of 128 bits. -/
def checkedDiv (dividend divisor : Int128) : Traced Int128 :=
  ⟨if divisor = 0#128 ∨ (dividend = BitVec.intMin 128 ∧ divisor = -1#128) then
      .error .divisionOverflow
    else .ok (dividend.sdiv divisor), [.quotient dividend.toInt divisor.toInt]⟩

def checkedRem (dividend divisor : Int128) : Traced Int128 :=
  ⟨if divisor = 0#128 ∨ (dividend = BitVec.intMin 128 ∧ divisor = -1#128) then
      .error .divisionOverflow
    else .ok (dividend.srem divisor), [.remainder dividend.toInt divisor.toInt]⟩

end Numbers

/-- A result at the width of its operation, and what the operation does to the flags. -/
structure Result where
  value : Int128
  flags : FlagUpdate

def zeroSign (value : Int128) : FlagUpdate :=
  { zero := some (value == 0#128), sign := some (value.slt 0#128) }

section Operations

variable (size : Size) (destination source : Int128) (count : Nat)

/-- Zero and sign come from the result at its width, overflow from the exact one. -/
def arithmetic (exact : Int128) (carry : Option Bool) : Traced Result := do
  let value ← truncate exact size
  return ⟨value, { zeroSign value with overflow := some !(fits size exact), carry }⟩

def sumOf : Traced Result := do
  let exact ← add destination source
  let value ← truncate exact size
  let carry :=
    (destination.slt 0#128 && source.slt 0#128) ||
      ((destination.slt 0#128 != source.slt 0#128) && !value.slt 0#128)
  arithmetic size exact (some carry)

def differenceOf : Traced Result := do
  let exact ← sub destination source
  let borrow :=
    ((destination.slt 0#128 == source.slt 0#128) && destination.slt source) ||
      (!destination.slt 0#128 && source.slt 0#128)
  arithmetic size exact (some borrow)

def productOf : Traced Result := do
  let exact ← mul destination source
  arithmetic size exact (some !(fits size exact))

def increment : Traced Result := do
  arithmetic size (← add destination 1#128) none

def decrement : Traced Result := do
  arithmetic size (← add destination (-1#128)) none

def negationOf : Traced Result := do
  arithmetic size (← neg destination) (some (destination != 0#128))

/-- Logical operations clear overflow and carry. -/
def logical (combine : Int128 → Int128 → Int128) (size : Size) (destination source : Int128) :
    Traced Result := do
  let value ← truncate (combine destination source) size
  return ⟨value, { zeroSign value with overflow := some false, carry := some false }⟩

def conjunction : Size → Int128 → Int128 → Traced Result := logical (· &&& ·)

def disjunction : Size → Int128 → Int128 → Traced Result := logical (· ||| ·)

def exclusion : Size → Int128 → Int128 → Traced Result := logical (· ^^^ ·)

def complement : Traced Result := do
  return ⟨← truncate (~~~destination) size, .none⟩

/-- The low six bits of an unsigned byte. -/
def shiftCount : Nat :=
  ((zeroExtend .byte source).srem 64#128).toNat

/-- The bits are looked at for a shift by one only. -/
def topChanges : Traced Bool :=
  if count = 1 then do
    let top ← shiftRight (zeroExtend size destination) (size.bits - 1)
    let next ← shiftRight (zeroExtend size destination) (size.bits - 2)
    return isOdd (top ^^^ next)
  else return false

def leftCarry : Traced (Option Bool) :=
  if count = 0 then return none
  else if count ≤ size.bits then
    return some (← bit (zeroExtend size destination) (size.bits - count))
  else return some false

def leftShift : Traced Result := do
  let value ← truncate (← shiftLeft destination count) size
  let overflow ← topChanges size destination count
  let carry ← leftCarry size destination count
  return ⟨value, { zeroSign value with overflow := some overflow, carry }⟩

def rightCarry (contents : Int128) : Traced (Option Bool) :=
  if count = 0 then return none
  else return some (← bit contents (count - 1))

/-- Shifts to the right what `contents` holds, signed or unsigned, and clears overflow. -/
def rightShift (contents : Int128) : Traced Result := do
  let value ← truncate (← shiftRight contents count) size
  let carry ← rightCarry count contents
  return ⟨value, { zeroSign value with overflow := some false, carry }⟩

def signedShift : Traced Result :=
  rightShift size count destination

def unsignedShift : Traced Result :=
  rightShift size count (zeroExtend size destination)

end Operations

section Access

variable (machine : Machine) (labels : LabelTable)

def readRegister (register : Register) : Traced Int128 :=
  truncate (ofWord (machine.registers.read register)) register.size

def readMemory (address : Address) (size : Size) : Traced Int128 :=
  truncate (BitVec.ofNat 128 (ofLittleEndian (machine.memory.read address size.bytes))) size

def read (operand : Operand LabelRef) (size : Size) : Traced Int128 :=
  match operand with
  | .immediate constant => truncate (BitVec.ofInt 128 constant.value) size
  | .register register => readRegister machine register
  | .memory reference => readMemory machine (reference.address machine.registers) size
  | .label reference =>
    match labels.line? reference.id with
    | some line => return BitVec.ofNat 128 line
    | none => .fault (.unresolvedLabel reference.name)

/-- A view takes the low bits of the low word. -/
def setRegister (register : Register) (value : Int128) : Machine :=
  { machine with registers :=
      machine.registers.setView register (value.word.setWidth register.size.bits) }

/-- The low bytes of the low word. -/
def store (address : Address) (size : Size) (value : Int128) : Machine :=
  let bytes := littleEndian size.bytes value.word.toNat
  { machine with memory := machine.memory.write address bytes machine.step }

def write (operand : Operand LabelRef) (size : Size) (value : Int128) : Traced Machine :=
  match operand with
  | .immediate constant => .fault (.internal (.constantDestination constant))
  | .register register => return setRegister machine register value
  | .memory reference => return store machine (reference.address machine.registers) size value
  | .label reference => .fault (.internal (.labelDestination reference.name))

def setStackPointer (address : Address) : Machine :=
  setRegister machine Gpr.rsp.full (ofWord address)

def push (value : Int128) : Machine :=
  let address := machine.stackPointer - 8
  store (setStackPointer machine address) address .quad value

end Access

section Instructions

variable (instruction : Instruction LabelRef) (machine : Machine) (labels : LabelTable)

def combine (operation : Size → Int128 → Int128 → Traced Result) : Traced Machine := do
  let size := instruction.mnemonic.size
  let (source, destination) ← .lift instruction.binary
  let first ← read machine labels destination size
  let second ← read machine labels source size
  let result ← operation size first second
  return (← write machine destination size result.value).complete result.flags

def compare (operation : Size → Int128 → Int128 → Traced Result) : Traced Machine := do
  let size := instruction.mnemonic.size
  let (source, destination) ← .lift instruction.binary
  let first ← read machine labels destination size
  let second ← read machine labels source size
  return machine.complete (← operation size first second).flags

def modify (operation : Size → Int128 → Traced Result) : Traced Machine := do
  let size := instruction.mnemonic.size
  let destination ← .lift instruction.unary
  let result ← operation size (← read machine labels destination size)
  return (← write machine destination size result.value).complete result.flags

def shift (operation : Size → Int128 → Nat → Traced Result) : Traced Machine := do
  let size := instruction.mnemonic.size
  let (source, destination) ← .lift instruction.binary
  let count := shiftCount (← read machine labels source .byte)
  let result ← operation size (← read machine labels destination size) count
  return (← write machine destination size result.value).complete result.flags

def move (width : Size) (convert : Int128 → Int128) : Traced Machine := do
  let (source, destination) ← .lift instruction.binary
  let value ← read machine labels source width
  let stored ← write machine destination instruction.mnemonic.size (convert value)
  return stored.advance

def loadAddress : Traced Machine := do
  let size := instruction.mnemonic.size
  let (source, destination) ← .lift instruction.binary
  match source with
  | .memory reference =>
    let address ← truncate (ofWord (reference.address machine.registers)) size
    return (← write machine destination size address).advance
  | other => .fault (.internal (.addressOf (other.map LabelRef.name)))

def divide : Traced Machine := do
  let size := instruction.mnemonic.size
  let (high, low) := Instruction.dividendRegisters size
  let divisor ← read machine labels (← .lift instruction.unary) size
  if divisor = 0#128 then .fault .divisionByZero
  else do
    let shifted ← shiftLeft (← readRegister machine high) size.bits
    let dividend ← join shifted (ofWord (machine.registers.read low))
    let quotient ← checkedDiv dividend divisor
    let remainder ← checkedRem dividend divisor
    if fits size quotient then
      return (setRegister (setRegister machine low quotient) high remainder).advance
    else .fault .divisionOverflow

def pushOperand : Traced Machine := do
  let value ← read machine labels (← .lift instruction.unary) .quad
  return (push machine value).advance

def popOperand : Traced Machine := do
  let destination ← .lift instruction.unary
  let value ← readMemory machine machine.stackPointer .quad
  let raised := setStackPointer machine (machine.stackPointer + 8)
  return (← write raised destination .quad value).advance

def setIf (condition : Bool) : Traced Machine := do
  let destination ← .lift instruction.unary
  return (← write machine destination .byte (if condition then 1#128 else 0#128)).advance

def target : Traced Nat := do
  let value ← read machine labels (← .lift instruction.unary) .quad
  match value.word? with
  | some line => return line
  | none => .fault (.internal (.negativeTarget value.toInt))

def branchIf (condition : Bool) : Traced Machine := do
  if condition then return machine.jump (← target instruction machine labels)
  else return machine.advance

def enter : Traced Machine := do
  let line ← target instruction machine labels
  let next ← add (BitVec.ofNat 128 machine.rip) 1#128
  return ((push machine next).adjustDepth 1).jump line

def leave : Traced Machine :=
  if machine.callDepth ≤ 0 then return machine.adjustDepth (-1)
  else if machine.stackBase ≤ machine.stackPointer then .fault .stackUnderflow
  else do
    let value ← readMemory machine machine.stackPointer .quad
    match value.word? with
    | some line =>
      return ((setStackPointer machine (machine.stackPointer + 8)).adjustDepth (-1)).jump line
    | none => .fault (.invalidReturnAddress value.toInt)

def extendAccumulator : Traced Machine := do
  let value ← readRegister machine (.low .rax .long)
  return (setRegister machine (.low .rax .quad) value).advance

/-- The machine after the instruction, its step not yet counted. -/
def execute : Traced Machine :=
  match instruction.mnemonic.opcode with
  | .add => combine instruction machine labels sumOf
  | .sub => combine instruction machine labels differenceOf
  | .imul => combine instruction machine labels productOf
  | .cmp => compare instruction machine labels differenceOf
  | .or => combine instruction machine labels disjunction
  | .and => combine instruction machine labels conjunction
  | .xor => combine instruction machine labels exclusion
  | .test => compare instruction machine labels conjunction
  | .inc => modify instruction machine labels increment
  | .dec => modify instruction machine labels decrement
  | .neg => modify instruction machine labels negationOf
  | .not => modify instruction machine labels complement
  | .sal | .shl => shift instruction machine labels leftShift
  | .sar => shift instruction machine labels signedShift
  | .shr => shift instruction machine labels unsignedShift
  | .mov => move instruction machine labels instruction.mnemonic.size id
  | .movz =>
    move instruction machine labels instruction.mnemonic.sourceSize
      (zeroExtend instruction.mnemonic.sourceSize)
  | .movs => move instruction machine labels instruction.mnemonic.sourceSize id
  | .lea => loadAddress instruction machine
  | .idiv => divide instruction machine labels
  | .push => pushOperand instruction machine labels
  | .pop => popOperand instruction machine
  | .clt => extendAccumulator machine
  | .set condition => setIf instruction machine (condition.holds machine.flags)
  | .jumpIf condition => branchIf instruction machine labels (condition.holds machine.flags)
  | .jmp => branchIf instruction machine labels true
  | .call => enter instruction machine labels
  | .ret => leave machine

end Instructions

/-- The machine after a line. -/
def evaluate (line : Line) (machine : Machine) (labels : LabelTable) : Except Fault Machine :=
  match line.instruction? with
  | none => .ok machine.advance.countStep
  | some instruction =>
    match (execute instruction machine labels).outcome with
    | .ok next => .ok next.countStep
    | .error cause => .error ⟨line.number, cause⟩

/-- All that is calculated while a line is evaluated, up to the fault if there is one. -/
def calculations (line : Line) (machine : Machine) (labels : LabelTable) : List Calculation :=
  match line.instruction? with
  | none => []
  | some instruction => (execute instruction machine labels).calculations

end AsmLab.FixedWidth
