import AsmLab.Exec.Access
import AsmLab.Proofs.Exec.AluBits
import AsmLab.Proofs.Exec.Totality
import AsmLab.Proofs.Machine.ReadBack

/-! Operands as bits. An operand that its place admits reads as the bits that it holds, and a store
through it changes these bits and no other part of registers or memory. -/
namespace AsmLab

namespace Operand

/-- The bits that an operand holds at a width. A label holds none. -/
def contents (operand : Operand LabelRef) (size : Size) (machine : Machine) : BitVec size.bits :=
  match operand with
  | immediate constant => BitVec.ofInt size.bits constant.value
  | register reg => (machine.registers.view reg).setWidth size.bits
  | memory reference =>
    BitVec.ofNat size.bits
      (ofLittleEndian (machine.memory.read (reference.address machine.registers) size.bytes))
  | label _ => 0

/-- Whether a bit of a 64-bit register belongs to an operand. -/
def CoversBit (operand : Operand LabelRef) (parent : Gpr) (index : Nat) : Prop :=
  match operand with
  | register reg => reg.parent = parent ∧ reg.shift ≤ index ∧ index < reg.shift + reg.size.bits
  | _ => False

/-- Whether a byte of memory belongs to an operand. -/
def CoversByte (operand : Operand LabelRef) (size : Size) (machine : Machine) (address : Address) :
    Prop :=
  match operand with
  | memory reference => (address - reference.address machine.registers).toNat < size.bytes
  | _ => False

/-- A store through an operand: it holds the bits now, and everything beside them is as it was. -/
structure Stores (operand : Operand LabelRef) (size : Size) (bits : BitVec size.bits)
    (before after : Machine) : Prop where
  contents : operand.contents size after = bits
  registers : ∀ parent index, ¬ operand.CoversBit parent index →
    (after.registers.get parent).getLsbD index = (before.registers.get parent).getLsbD index
  memory : ∀ address, ¬ operand.CoversByte size before address →
    after.memory.cell? address = before.memory.cell? address

variable {operand : Operand LabelRef} {slot : Slot} {size : Size}

theorem read_eq_contents (admitted : slot.Admits (operand.map LabelRef.name))
    (noLabel : slot.label = false) (machine : Machine) (labels : LabelTable) :
    operand.read slot.size machine labels = .ok (operand.contents slot.size machine).toInt := by
  cases operand with
  | immediate constant => exact congrArg Except.ok (slot.size.truncate_eq constant.value)
  | register reg =>
    obtain ⟨_, same⟩ := admitted
    rw [read, contents, ← show reg.size = slot.size from same, BitVec.setWidth_eq]
    rfl
  | memory reference =>
    rw [read, contents, Machine.readMemory, Size.truncate_eq, BitVec.ofInt_natCast]
  | label _ => simp [admitted.1] at noLabel

theorem read_value (admitted : (Slot.value size).Admits (operand.map LabelRef.name))
    (machine : Machine) (labels : LabelTable) :
    operand.read size machine labels = .ok (operand.contents size machine).toInt :=
  read_eq_contents admitted rfl machine labels

theorem read_location (admitted : (Slot.location size).Admits (operand.map LabelRef.name))
    (machine : Machine) (labels : LabelTable) :
    operand.read size machine labels = .ok (operand.contents size machine).toInt :=
  read_eq_contents admitted rfl machine labels

/-- What happens to the rest of the machine after a store does not matter. -/
theorem Stores.of_eq {bits : BitVec size.bits} {before after later : Machine}
    (stores : operand.Stores size bits before after) (registers : later.registers = after.registers)
    (memory : later.memory = after.memory) : operand.Stores size bits before later where
  contents := by
    rw [← stores.contents]
    simp only [Operand.contents, registers, memory]
  registers := by
    rw [registers]
    exact stores.registers
  memory := by
    rw [memory]
    exact stores.memory

theorem setRegister_stores (reg : Register) (value : Int) (machine : Machine) :
    (Operand.register reg).Stores reg.size (BitVec.ofInt reg.size.bits value) machine
      (machine.setRegister reg value) where
  contents := by
    rw [contents, BitVec.setWidth_eq]
    exact RegisterFile.view_setView ..
  registers parent index outside := RegisterFile.getLsbD_setView _ _ _ parent index outside
  memory _ _ := rfl

theorem store_stores (reference : MemoryRef) (size : Size) (value : Int) (machine : Machine) :
    (Operand.memory reference).Stores size (BitVec.ofInt size.bits value) machine
      (machine.store (reference.address machine.registers) size value) where
  contents := by
    have bytes := machine.read_store (reference.address machine.registers) size value
    exact (congrArg (fun bytes => BitVec.ofNat size.bits (ofLittleEndian bytes)) bytes).trans
      (size.ofNat_littleEndian value)
  registers _ _ _ := rfl
  memory _ outside := machine.cell?_store _ size value outside

/-- A store through an admitted place succeeds and leaves the flags for later. -/
theorem exists_stores (admitted : (Slot.location size).Admits (operand.map LabelRef.name))
    (value : Int) (machine : Machine) :
    ∃ after, operand.write size value machine = .ok after ∧ after.flags = machine.flags ∧
      operand.Stores size (BitVec.ofInt size.bits value) machine after := by
  cases operand with
  | immediate _ => simp [Slot.Admits, Operand.map, Slot.location] at admitted
  | register reg =>
    obtain ⟨_, same⟩ := admitted
    rw [← show reg.size = size from same]
    exact ⟨_, rfl, rfl, setRegister_stores reg value machine⟩
  | memory reference => exact ⟨_, rfl, rfl, store_stores reference size value machine⟩
  | label _ => simp [Slot.Admits, Operand.map, Slot.location] at admitted

end Operand

end AsmLab
