import Mathlib
import AsmLab.Proofs.Source.FragmentCutting
import AsmLab.Source.Draft

/-! What an accepted statement looks like, said without the reader: the mnemonic is in the catalog,
every operand is of a form and width that its place admits, and names are spelled as names. -/
namespace AsmLab

/-- A decimal immediate needs room for its sign bit, a hexadecimal one four bits a digit. -/
def Immediate.Fits (immediate : Immediate) (bits : Nat) : Prop :=
  match immediate.radix with
  | .decimal => bitLength immediate.value + 1 ≤ bits
  | .hex digits =>
    0 < digits ∧ 4 * digits ≤ bits ∧ immediate.value.natAbs < 16 ^ digits

structure MemoryRef.WellFormed (reference : MemoryRef) : Prop where
  base : reference.base.size = .quad
  index : ∀ register ∈ reference.index, register.size = .quad
  scale : reference.scale ∈ [1, 2, 4, 8]
  unscaled : reference.index = none → reference.scale = 1

/-- Whether a place takes an operand. -/
def Slot.Admits (slot : Slot) : Operand String → Prop
  | .immediate constant => slot.constant = true ∧ constant.Fits slot.size.bits
  | .register register => slot.register = true ∧ register.size = slot.size
  | .memory reference => slot.memory = true ∧ reference.WellFormed
  | .label name => slot.label = true ∧ Source.IsName name.toList

/-- One operand for each place, at most one of them in memory. -/
def Operands.Match : List Slot → Operands String → Prop
  | [], .nullary => True
  | [slot], .unary operand => slot.Admits operand
  | [sourceSlot, slot], .binary source destination =>
    sourceSlot.Admits source ∧ slot.Admits destination ∧
      (source.isMemory && destination.isMemory) = false
  | _, _ => False

structure Instruction.WellFormed (instruction : Instruction String) : Prop where
  listed : instruction.mnemonic ∈ Mnemonic.catalog
  matched : instruction.operands.Match instruction.mnemonic.slots

def Statement.WellFormed : Statement String → Prop
  | .blank | .comment => True
  | .label name => Source.IsName name.toList ∧ Register.ofName? name = none
  | .instruction body => body.WellFormed

/-- Blank lines have no comment, and lines that are nothing else have one. -/
def Statement.TakesComment {Label : Type} : Statement Label → Option String → Prop
  | .blank, text => text = none
  | .comment, text => text.isSome = true
  | .label _, _ | .instruction _, _ => True

structure Line.WellFormed (line : Line) : Prop where
  statement : line.statement.names.WellFormed
  comment : line.statement.names.TakesComment line.comment

structure Source.Draft.WellFormed (draft : Source.Draft) : Prop where
  statement : draft.statement.WellFormed
  comment : draft.statement.TakesComment draft.comment

/-- The last of two places never takes a constant. -/
theorem Mnemonic.constant_of_slots {mnemonic : Mnemonic} {sourceSlot slot : Slot}
    (two : mnemonic.slots = [sourceSlot, slot]) : slot.constant = false := by
  unfold Mnemonic.slots Opcode.slots at two
  split at two <;> simp at two <;> rw [← two.2] <;> rfl

end AsmLab
