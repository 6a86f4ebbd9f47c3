import AsmLab.Proofs.Exec.Shifting
import AsmLab.Proofs.Source.MnemonicCatalog

/-! Moves keep the number that they move. A move at one width keeps the bits, a widening move keeps the
unsigned or the signed reading of them, and nothing beside the destination changes, at whatever width it
is a view of its register. -/
namespace AsmLab

/-- The instructions that move a number, at one width or to a wider one. -/
def Opcode.moves : List Opcode :=
  [mov, movz, movs, clt]

/-- A machine after a move. The destination holds the number that the source held before, also where both
are views of one register or the source is found through the destination. -/
inductive Instruction.Moved (instruction : Instruction LabelRef) (before after : Machine) : Prop where
  | copied {source destination : Operand LabelRef} (moves : instruction.mnemonic.opcode = .mov)
      (shape : instruction.operands = .binary source destination)
      (stores : destination.Stores instruction.mnemonic.size
        (source.contents instruction.mnemonic.size before) before after)
  | zeroExtended {source destination : Operand LabelRef} {bits : BitVec instruction.mnemonic.size.bits}
      (moves : instruction.mnemonic.opcode = .movz)
      (shape : instruction.operands = .binary source destination)
      (wider : instruction.mnemonic.sourceSize < instruction.mnemonic.size)
      (unsigned : bits.toNat = (source.contents instruction.mnemonic.sourceSize before).toNat)
      (stores : destination.Stores instruction.mnemonic.size bits before after)
  | signExtended {source destination : Operand LabelRef} {bits : BitVec instruction.mnemonic.size.bits}
      (moves : instruction.mnemonic.opcode = .movs)
      (shape : instruction.operands = .binary source destination)
      (wider : instruction.mnemonic.sourceSize < instruction.mnemonic.size)
      (signed : bits.toInt = (source.contents instruction.mnemonic.sourceSize before).toInt)
      (stores : destination.Stores instruction.mnemonic.size bits before after)
  | longExtended {bits : BitVec Size.quad.bits} (moves : instruction.mnemonic.opcode = .clt)
      (signed : bits.toInt =
        ((Operand.register (.low .rax .long)).contents .long before).toInt)
      (stores : (Operand.register Gpr.rax.full).Stores .quad bits before after)

namespace Size

variable {narrow wide : Size}

theorem bits_le_of_lt (wider : narrow < wide) : narrow.bits ≤ wide.bits :=
  Nat.mul_le_mul_left 8 (Nat.le_of_lt wider)

theorem toNat_ofInt_toNat (fits : narrow.bits ≤ wide.bits) (bits : BitVec narrow.bits) :
    (BitVec.ofInt wide.bits bits.toNat).toNat = bits.toNat := by
  have bound := bits.isLt.trans_le (Nat.pow_le_pow_right Nat.two_pos fits)
  rw [BitVec.ofInt_natCast, BitVec.toNat_ofNat, Nat.mod_eq_of_lt bound]

theorem toInt_ofInt_toInt (fits : narrow.bits ≤ wide.bits) (bits : BitVec narrow.bits) :
    (BitVec.ofInt wide.bits bits.toInt).toInt = bits.toInt := by
  have room : (2 : Int) ^ (narrow.bits - 1) ≤ 2 ^ (wide.bits - 1) :=
    pow_le_pow_right₀ (by decide) (Nat.sub_le_sub_right fits 1)
  rw [← Size.truncate_eq]
  apply Size.truncate_of_range
  · exact (neg_le_neg room).trans (BitVec.le_toInt _)
  · exact BitVec.toInt_lt.trans_le room

end Size

/-- A place that takes a register only is a place to store to. -/
theorem Operand.location_of_registerOnly {operand : Operand LabelRef} {size : Size}
    (admitted : (Slot.registerOnly size).Admits (operand.map LabelRef.name)) :
    (Slot.location size).Admits (operand.map LabelRef.name) := by
  cases operand with
  | register register => exact ⟨rfl, admitted.2⟩
  | immediate _ | memory _ | label _ => exact absurd admitted.1 (by simp [Slot.registerOnly])

namespace Instruction

variable {instruction : Instruction LabelRef} {machine : Machine} {labels : LabelTable}
  {source destination : Operand LabelRef}

/-- A move of an operand with a value to a place to store to. -/
theorem exists_move {width : Size} {value : Int} (convert : Int → Int)
    (shape : instruction.operands = .binary source destination)
    (read : source.read width machine labels = .ok value)
    (admitted : (Slot.location instruction.mnemonic.size).Admits
      (destination.map LabelRef.name)) :
    ∃ after, instruction.move machine labels width convert = .ok after ∧
      destination.Stores instruction.mnemonic.size
        (BitVec.ofInt instruction.mnemonic.size.bits (convert value)) machine after := by
  obtain ⟨stored, wrote, _, stores⟩ := Operand.exists_stores admitted (convert value) machine
  refine ⟨stored.advance, ?_, stores.of_eq rfl rfl⟩
  simp only [move, binary, shape, read, wrote, bind, Except.bind, pure, Except.pure]

/-- A move in the catalog whose operands fit their places succeeds and keeps the number. -/
theorem execute_moved (machine : Machine) (labels : LabelTable)
    (listed : instruction.mnemonic ∈ Mnemonic.catalog)
    (matched : (instruction.operands.map LabelRef.name).Match instruction.mnemonic.slots)
    (moves : instruction.mnemonic.opcode ∈ Opcode.moves) :
    ∃ after, instruction.execute machine labels = .ok after ∧ instruction.Moved machine after := by
  have regular := Mnemonic.regular_of_mem_catalog listed
  obtain ⟨⟨opcode, size, sourceSize⟩, operands⟩ := instruction
  cases opcode with
  | mov =>
    obtain ⟨source, destination, shape, admittedSource, admitted⟩ := matched.exists_binary
    have read := Operand.read_value admittedSource machine labels
    obtain ⟨after, run, stores⟩ := exists_move id shape read admitted
    rw [id, BitVec.ofInt_toInt] at stores
    exact ⟨after, run, .copied rfl shape stores⟩
  | movz =>
    obtain ⟨source, destination, shape, admittedSource, admitted⟩ := matched.exists_binary
    have wider : sourceSize < size := regular.narrower.mpr (.inl rfl)
    have read := Operand.read_location admittedSource machine labels
    obtain ⟨after, run, stores⟩ :=
      exists_move sourceSize.zeroExtend shape read (Operand.location_of_registerOnly admitted)
    rw [Alu.zeroExtend_toInt] at stores
    have unsigned := Size.toNat_ofInt_toNat (Size.bits_le_of_lt wider)
      (source.contents sourceSize machine)
    exact ⟨after, run, .zeroExtended rfl shape wider unsigned stores⟩
  | movs =>
    obtain ⟨source, destination, shape, admittedSource, admitted⟩ := matched.exists_binary
    have wider : sourceSize < size := regular.narrower.mpr (.inr rfl)
    have read := Operand.read_location admittedSource machine labels
    obtain ⟨after, run, stores⟩ :=
      exists_move id shape read (Operand.location_of_registerOnly admitted)
    have signed := Size.toInt_ofInt_toInt (Size.bits_le_of_lt wider)
      (source.contents sourceSize machine)
    exact ⟨after, run, .signExtended rfl shape wider signed stores⟩
  | clt =>
    have stores := Operand.setRegister_stores Gpr.rax.full
      (machine.registers.readSigned (.low .rax .long)) machine
    have fits : Size.long.bits ≤ Size.quad.bits := by decide
    have signed := Size.toInt_ofInt_toInt fits (machine.registers.view (.low .rax .long))
    exact ⟨_, rfl, .longExtended rfl signed (stores.of_eq rfl rfl)⟩
  | _ => simp [Opcode.moves] at moves

end Instruction

/-- An accepted move succeeds on every machine and keeps the number that it moves: all its bits, or their
unsigned or signed reading. Every other bit of the registers is as it was, the upper part of the
destination's register included. -/
theorem Line.Accepted.evaluate_moved {line : Line} {body : Instruction LabelRef}
    (accepted : line.Accepted body) (moves : body.mnemonic.opcode ∈ Opcode.moves)
    (machine : Machine) (labels : LabelTable) :
    ∃ after, line.evaluate machine labels = .ok after ∧ body.Moved machine after := by
  obtain ⟨after, run, moved⟩ :=
    body.execute_moved machine labels accepted.listed accepted.matched moves
  refine ⟨after.countStep, ?_, ?_⟩
  · simp only [Line.evaluate, accepted.found, run]
  · cases moved with
    | copied moves shape stores => exact .copied moves shape (stores.of_eq rfl rfl)
    | zeroExtended moves shape wider unsigned stores =>
      exact .zeroExtended moves shape wider unsigned (stores.of_eq rfl rfl)
    | signExtended moves shape wider signed stores =>
      exact .signExtended moves shape wider signed (stores.of_eq rfl rfl)
    | longExtended moves signed stores =>
      exact .longExtended moves signed (stores.of_eq rfl rfl)

/-- The second byte of a register, extended over the lower half of that register. The upper half stays. -/
theorem Line.Accepted.evaluate_moved_high :
    let source : Operand LabelRef := .register (.high .ah)
    let destination : Operand LabelRef := .register (.low .rax .long)
    let body : Instruction LabelRef := ⟨⟨.movs, .long, .byte⟩, .binary source destination⟩
    let line : Line := ⟨0, .instruction body, none, false⟩
    let machine :=
      (Machine.initial Machine.defaultStackBase).setRegister Gpr.rax.full 0x1122334455668899
    line.Accepted body ∧
      ∃ after, line.evaluate machine .empty = .ok after ∧
        (destination.contents .long after).toInt = -120 ∧
        (after.registers.get .rax).getLsbD 60 = true := by
  intro source destination body line machine
  have accepted : line.Accepted body :=
    ⟨⟨.empty, ⟨1, .empty⟩, "movsbl %ah, %eax", by decide +kernel⟩, rfl⟩
  obtain ⟨after, evaluates, moved⟩ := accepted.evaluate_moved (by decide) machine .empty
  refine ⟨accepted, after, evaluates, ?_⟩
  cases moved with
  | copied moves | zeroExtended moves | longExtended moves => cases moves
  | signExtended _ shape _ signed stores =>
    obtain ⟨rfl, rfl⟩ := Operands.binary.inj shape
    have high : (source.contents .byte machine).toInt = -120 := by decide +kernel
    have upper : (machine.registers.get .rax).getLsbD 60 = true := by decide +kernel
    constructor
    · exact (congrArg BitVec.toInt stores.contents).trans (signed.trans high)
    · refine (stores.registers .rax 60 ?_).trans upper
      rintro ⟨_, _, below⟩
      exact absurd below (by decide)

end AsmLab
