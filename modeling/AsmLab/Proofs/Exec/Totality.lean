import AsmLab.Exec.Evaluate
import AsmLab.Proofs.Source.WellFormed

/-! Instructions that succeed on every machine. Their operands are of the forms that their places
admit, so that a source has a value and a destination is a place to store to. -/
namespace AsmLab

namespace Operand

/-- The operand has a value on every machine. -/
def Readable (operand : Operand LabelRef) : Prop :=
  ∀ size machine labels, ∃ value, operand.read size machine labels = .ok value

/-- The operand takes a value on every machine. -/
def Writable (operand : Operand LabelRef) : Prop :=
  ∀ size value machine, ∃ after, operand.write size value machine = .ok after

variable {slot : Slot} {operand : Operand LabelRef}

theorem readable_of_admits (admitted : slot.Admits (operand.map LabelRef.name))
    (noLabel : slot.label = false) : operand.Readable := by
  intro size machine labels
  cases operand with
  | immediate _ => exact ⟨_, rfl⟩
  | register _ => exact ⟨_, rfl⟩
  | memory _ => exact ⟨_, rfl⟩
  | label _ => simp [admitted.1] at noLabel

theorem writable_of_admits (admitted : slot.Admits (operand.map LabelRef.name))
    (noLabel : slot.label = false) (noConstant : slot.constant = false) : operand.Writable := by
  intro size value machine
  cases operand with
  | immediate _ => simp [admitted.1] at noConstant
  | register _ => exact ⟨_, rfl⟩
  | memory _ => exact ⟨_, rfl⟩
  | label _ => simp [admitted.1] at noLabel

theorem exists_of_admits_memory {size : Size}
    (admitted : (Slot.memoryOnly size).Admits (operand.map LabelRef.name)) :
    ∃ reference, operand = .memory reference := by
  cases operand with
  | memory reference => exact ⟨reference, rfl⟩
  | immediate _ => exact absurd admitted.1 (by simp [Slot.memoryOnly])
  | register _ => exact absurd admitted.1 (by simp [Slot.memoryOnly])
  | label _ => exact absurd admitted.1 (by simp [Slot.memoryOnly])

theorem exists_of_admits_target (admitted : Slot.target.Admits (operand.map LabelRef.name)) :
    ∃ ref, operand = .label ref := by
  cases operand with
  | label ref => exact ⟨ref, rfl⟩
  | immediate _ => exact absurd admitted.1 (by simp [Slot.target])
  | register _ => exact absurd admitted.1 (by simp [Slot.target])
  | memory _ => exact absurd admitted.1 (by simp [Slot.target])

end Operand

namespace Operands.Match

variable {operands : Operands LabelRef} {sourceSlot slot : Slot}

theorem exists_unary (matched : (operands.map LabelRef.name).Match [slot]) :
    ∃ operand, operands = .unary operand ∧ slot.Admits (operand.map LabelRef.name) := by
  cases operands with
  | unary operand => exact ⟨operand, rfl, matched⟩
  | nullary => exact matched.elim
  | binary _ _ => exact matched.elim

theorem exists_binary (matched : (operands.map LabelRef.name).Match [sourceSlot, slot]) :
    ∃ source destination, operands = .binary source destination ∧
      sourceSlot.Admits (source.map LabelRef.name) ∧
        slot.Admits (destination.map LabelRef.name) := by
  cases operands with
  | binary source destination => exact ⟨source, destination, rfl, matched.1, matched.2.1⟩
  | nullary => exact matched.elim
  | unary _ => exact matched.elim

end Operands.Match

namespace Instruction

variable {instruction : Instruction LabelRef} {machine : Machine} {labels : LabelTable}

section Binary

variable {source destination : Operand LabelRef}
  (shape : instruction.operands = .binary source destination)

include shape

theorem combine_ok (operation : Size → Int → Int → Alu.Result) (readable : source.Readable)
    (kept : destination.Readable) (place : destination.Writable) :
    ∃ after, instruction.combine machine labels operation = .ok after := by
  obtain ⟨first, readFirst⟩ := kept instruction.mnemonic.size machine labels
  obtain ⟨second, readSecond⟩ := readable instruction.mnemonic.size machine labels
  obtain ⟨after, stored⟩ := place instruction.mnemonic.size
    (operation instruction.mnemonic.size first second).value machine
  simp [combine, binary, shape, readFirst, readSecond, stored, bind, Except.bind, pure, Except.pure]

theorem compare_ok (operation : Size → Int → Int → Alu.Result) (readable : source.Readable)
    (kept : destination.Readable) :
    ∃ after, instruction.compare machine labels operation = .ok after := by
  obtain ⟨first, readFirst⟩ := kept instruction.mnemonic.size machine labels
  obtain ⟨second, readSecond⟩ := readable instruction.mnemonic.size machine labels
  simp [compare, binary, shape, readFirst, readSecond, bind, Except.bind, pure, Except.pure]

theorem shift_ok (operation : Size → Int → Nat → Alu.Result) (readable : source.Readable)
    (kept : destination.Readable) (place : destination.Writable) :
    ∃ after, instruction.shift machine labels operation = .ok after := by
  obtain ⟨count, readCount⟩ := readable .byte machine labels
  obtain ⟨first, readFirst⟩ := kept instruction.mnemonic.size machine labels
  obtain ⟨after, stored⟩ := place instruction.mnemonic.size
    (operation instruction.mnemonic.size first (Alu.shiftCount count)).value machine
  simp [shift, binary, shape, readCount, readFirst, stored, bind, Except.bind, pure, Except.pure]

theorem move_ok (width : Size) (convert : Int → Int) (readable : source.Readable)
    (place : destination.Writable) :
    ∃ after, instruction.move machine labels width convert = .ok after := by
  obtain ⟨value, readValue⟩ := readable width machine labels
  obtain ⟨after, stored⟩ := place instruction.mnemonic.size (convert value) machine
  simp [move, binary, shape, readValue, stored, bind, Except.bind, pure, Except.pure]

omit shape in
theorem loadAddress_ok {reference : MemoryRef}
    (shape : instruction.operands = .binary (.memory reference) destination)
    (place : destination.Writable) : ∃ after, instruction.loadAddress machine = .ok after := by
  obtain ⟨after, stored⟩ := place instruction.mnemonic.size (instruction.mnemonic.size.truncate
    (reference.address machine.registers).toNat) machine
  simp [loadAddress, binary, shape, stored, bind, Except.bind, pure, Except.pure]

end Binary

section Unary

variable {operand : Operand LabelRef} (shape : instruction.operands = .unary operand)

include shape

theorem modify_ok (operation : Size → Int → Alu.Result) (kept : operand.Readable)
    (place : operand.Writable) :
    ∃ after, instruction.modify machine labels operation = .ok after := by
  obtain ⟨value, readValue⟩ := kept instruction.mnemonic.size machine labels
  obtain ⟨after, stored⟩ := place instruction.mnemonic.size
    (operation instruction.mnemonic.size value).value machine
  simp [modify, unary, shape, readValue, stored, bind, Except.bind, pure, Except.pure]

theorem pushOperand_ok (readable : operand.Readable) :
    ∃ after, instruction.pushOperand machine labels = .ok after := by
  obtain ⟨value, readValue⟩ := readable .quad machine labels
  simp [pushOperand, unary, shape, readValue, bind, Except.bind, pure, Except.pure]

theorem popOperand_ok (place : operand.Writable) :
    ∃ after, instruction.popOperand machine = .ok after := by
  obtain ⟨after, stored⟩ := place .quad (machine.readMemory machine.stackPointer .quad)
    (machine.setStackPointer (machine.stackPointer + 8))
  refine ⟨after.advance, ?_⟩
  simp only [popOperand, unary, shape, stored, bind, Except.bind, pure, Except.pure]

theorem setIf_ok (condition : Bool) (place : operand.Writable) :
    ∃ after, instruction.setIf machine condition = .ok after := by
  obtain ⟨after, stored⟩ := place .byte condition.toInt machine
  simp [setIf, unary, shape, stored, bind, Except.bind, pure, Except.pure]

end Unary

end Instruction

/-- Instructions without a fault of their own. -/
def Opcode.isTotal : Opcode → Bool
  | .idiv | .jumpIf _ | .jmp | .call | .ret => false
  | _ => true

namespace Instruction

variable {instruction : Instruction LabelRef} {machine : Machine} {labels : LabelTable}

/-- An instruction without a fault of its own succeeds if its operands fit their places. -/
theorem execute_ok (machine : Machine) (labels : LabelTable)
    (matched : (instruction.operands.map LabelRef.name).Match instruction.mnemonic.slots)
    (total : instruction.mnemonic.opcode.isTotal = true) :
    ∃ after, instruction.execute machine labels = .ok after := by
  obtain ⟨⟨opcode, size, sourceSize⟩, operands⟩ := instruction
  cases opcode with
  | idiv | jumpIf | jmp | call | ret => cases total
  | clt => exact ⟨_, rfl⟩
  | add | sub | imul | or | and | xor =>
    obtain ⟨source, destination, rfl, admittedSource, admitted⟩ := matched.exists_binary
    exact combine_ok rfl _ (Operand.readable_of_admits admittedSource rfl)
      (Operand.readable_of_admits admitted rfl) (Operand.writable_of_admits admitted rfl rfl)
  | cmp | test =>
    obtain ⟨source, destination, rfl, admittedSource, admitted⟩ := matched.exists_binary
    exact compare_ok rfl _ (Operand.readable_of_admits admittedSource rfl)
      (Operand.readable_of_admits admitted rfl)
  | sal | shl | sar | shr =>
    obtain ⟨source, destination, rfl, admittedSource, admitted⟩ := matched.exists_binary
    exact shift_ok rfl _ (Operand.readable_of_admits admittedSource rfl)
      (Operand.readable_of_admits admitted rfl) (Operand.writable_of_admits admitted rfl rfl)
  | mov | movz | movs =>
    obtain ⟨source, destination, rfl, admittedSource, admitted⟩ := matched.exists_binary
    exact move_ok rfl _ _ (Operand.readable_of_admits admittedSource rfl)
      (Operand.writable_of_admits admitted rfl rfl)
  | lea =>
    obtain ⟨source, destination, rfl, admittedSource, admitted⟩ := matched.exists_binary
    obtain ⟨reference, rfl⟩ := Operand.exists_of_admits_memory admittedSource
    exact loadAddress_ok rfl (Operand.writable_of_admits admitted rfl rfl)
  | inc | dec | neg | not =>
    obtain ⟨operand, rfl, admitted⟩ := matched.exists_unary
    exact modify_ok rfl _ (Operand.readable_of_admits admitted rfl)
      (Operand.writable_of_admits admitted rfl rfl)
  | push =>
    obtain ⟨operand, rfl, admitted⟩ := matched.exists_unary
    exact pushOperand_ok rfl (Operand.readable_of_admits admitted rfl)
  | pop =>
    obtain ⟨operand, rfl, admitted⟩ := matched.exists_unary
    exact popOperand_ok rfl (Operand.writable_of_admits admitted rfl rfl)
  | set condition =>
    obtain ⟨operand, rfl, admitted⟩ := matched.exists_unary
    exact setIf_ok rfl _ (Operand.writable_of_admits admitted rfl rfl)

end Instruction

end AsmLab
