import AsmLab.Proofs.Exec.StepFrame

/-! Every byte that a step stores is stamped with the step. With the frame of a step this tells all
cells of memory behind it: the stored ones have the new stamp, and the others are as they were. -/
namespace AsmLab

open Source (exists_of_bind_ok)

theorem Machine.memory_advance (machine : Machine) : machine.advance.memory = machine.memory := rfl

theorem Machine.memory_complete (machine : Machine) (flags : FlagUpdate) :
    (machine.complete flags).memory = machine.memory := rfl

/-- The bytes of some regions were written in the step of the machine before. -/
def Machine.Stamped (before : Machine) (regions : List Region) (after : Machine) : Prop :=
  ∀ region ∈ regions, ∀ address, region.CoversByte address →
    ∃ byte, after.memory.cell? address = some ⟨byte, before.step⟩

namespace Machine.Stamped

variable {before after later : Machine} {regions : List Region}

/-- Registers have no stamps. -/
theorem of_views (views : ∀ region ∈ regions, ∃ register, region = .view register) :
    before.Stamped regions after := by
  intro region member address covered
  obtain ⟨register, rfl⟩ := views region member
  exact covered.elim

theorem cons_view {register : Register} (stamped : before.Stamped regions after) :
    before.Stamped (.view register :: regions) after := by
  intro region member
  rcases List.mem_cons.mp member with rfl | listed
  · intro address covered
    exact covered.elim
  · exact stamped region listed

theorem of_later (stamped : before.Stamped regions after) (memory : later.memory = after.memory) :
    before.Stamped regions later := by
  unfold Machine.Stamped
  rw [memory]
  exact stamped

theorem store (machine : Machine) (address : Address) (size : Size) (value : Int) :
    machine.Stamped [.bytes address size] (machine.store address size value) := by
  intro region member target covered
  obtain rfl := List.mem_singleton.mp member
  have inside : (target - address).toNat <
      (littleEndian size.bytes (size.zeroExtend value).toNat).length := by
    rw [length_littleEndian]
    exact covered
  rw [Machine.store, Memory.cell?_write _ _ (size.length_littleEndian_le _),
    List.getElem?_eq_getElem inside]
  exact ⟨_, rfl⟩

theorem push (machine : Machine) (value : Int) :
    machine.Stamped [.view Gpr.rsp.full, .bytes (machine.stackPointer - 8) .quad]
      (machine.push value) :=
  cons_view (store (machine.setStackPointer (machine.stackPointer - 8)) _ .quad value)

theorem write {operand : Operand LabelRef} {size : Size} {value : Int} {machine stored : Machine}
    (wrote : operand.write size value machine = .ok stored) :
    machine.Stamped (operand.region size machine) stored := by
  cases operand with
  | immediate _ | label _ => cases wrote
  | register register => exact of_views (by simp [Operand.region])
  | memory reference =>
    obtain rfl := Except.ok.inj wrote
    exact store machine _ size value

end Machine.Stamped

/-- An instruction that ends with storing its result and going on. -/
theorem Operand.stamped_of_write {operand : Operand LabelRef} {size : Size} {value : Int}
    {machine after : Machine} {goOn : Machine → Machine}
    (kept : ∀ stored, (goOn stored).memory = stored.memory)
    (run : (do return goOn (← operand.write size value machine)) = Except.ok after) :
    machine.Stamped (operand.region size machine) after := by
  obtain ⟨stored, wrote, run⟩ := exists_of_bind_ok run
  obtain rfl := Except.ok.inj run
  exact (Machine.Stamped.write wrote).of_later (kept stored)

namespace Instruction

variable {instruction : Instruction LabelRef} {machine after : Machine} {labels : LabelTable}

theorem combine_stamped {operation : Size → Int → Int → Alu.Result}
    (run : instruction.combine machine labels operation = .ok after) :
    machine.Stamped (instruction.operands.stored instruction.mnemonic.size machine) after := by
  obtain ⟨⟨source, destination⟩, shape, run⟩ := exists_of_bind_ok run
  obtain ⟨first, _, run⟩ := exists_of_bind_ok run
  obtain ⟨second, _, run⟩ := exists_of_bind_ok run
  rw [binary_ok shape]
  exact Operand.stamped_of_write (fun stored => stored.memory_complete _) run

theorem modify_stamped {operation : Size → Int → Alu.Result}
    (run : instruction.modify machine labels operation = .ok after) :
    machine.Stamped (instruction.operands.stored instruction.mnemonic.size machine) after := by
  obtain ⟨destination, shape, run⟩ := exists_of_bind_ok run
  obtain ⟨value, _, run⟩ := exists_of_bind_ok run
  rw [unary_ok shape]
  exact Operand.stamped_of_write (fun stored => stored.memory_complete _) run

theorem shift_stamped {operation : Size → Int → Nat → Alu.Result}
    (run : instruction.shift machine labels operation = .ok after) :
    machine.Stamped (instruction.operands.stored instruction.mnemonic.size machine) after := by
  obtain ⟨⟨source, destination⟩, shape, run⟩ := exists_of_bind_ok run
  obtain ⟨amount, _, run⟩ := exists_of_bind_ok run
  obtain ⟨value, _, run⟩ := exists_of_bind_ok run
  rw [binary_ok shape]
  exact Operand.stamped_of_write (fun stored => stored.memory_complete _) run

theorem move_stamped {width : Size} {convert : Int → Int}
    (run : instruction.move machine labels width convert = .ok after) :
    machine.Stamped (instruction.operands.stored instruction.mnemonic.size machine) after := by
  obtain ⟨⟨source, destination⟩, shape, run⟩ := exists_of_bind_ok run
  obtain ⟨value, _, run⟩ := exists_of_bind_ok run
  rw [binary_ok shape]
  exact Operand.stamped_of_write Machine.memory_advance run

theorem loadAddress_stamped (run : instruction.loadAddress machine = .ok after) :
    machine.Stamped (instruction.operands.stored instruction.mnemonic.size machine) after := by
  obtain ⟨⟨source, destination⟩, shape, run⟩ := exists_of_bind_ok run
  cases source with
  | immediate _ | register _ | label _ => cases run
  | memory reference =>
    rw [binary_ok shape]
    exact Operand.stamped_of_write Machine.memory_advance run

theorem setIf_stamped {condition : Bool} (run : instruction.setIf machine condition = .ok after) :
    machine.Stamped (instruction.operands.stored .byte machine) after := by
  obtain ⟨destination, shape, run⟩ := exists_of_bind_ok run
  rw [unary_ok shape]
  exact Operand.stamped_of_write Machine.memory_advance run

/-- Raising the stack pointer before the store does not change the step. -/
theorem popOperand_stamped (run : instruction.popOperand machine = .ok after) :
    machine.Stamped (.view Gpr.rsp.full :: instruction.operands.stored .quad
      (machine.setStackPointer (machine.stackPointer + 8))) after := by
  obtain ⟨destination, shape, run⟩ := exists_of_bind_ok run
  rw [unary_ok shape]
  simp only at run
  have stamped := Operand.stamped_of_write Machine.memory_advance run
  exact Machine.Stamped.cons_view stamped

theorem pushOperand_stamped (run : instruction.pushOperand machine labels = .ok after) :
    machine.Stamped [.view Gpr.rsp.full, .bytes (machine.stackPointer - 8) .quad] after := by
  obtain ⟨operand, _, run⟩ := exists_of_bind_ok run
  obtain ⟨value, _, run⟩ := exists_of_bind_ok run
  obtain rfl := Except.ok.inj run
  exact (Machine.Stamped.push machine value).of_later rfl

theorem enter_stamped (run : instruction.enter machine labels = .ok after) :
    machine.Stamped [.view Gpr.rsp.full, .bytes (machine.stackPointer - 8) .quad] after := by
  obtain ⟨line, _, run⟩ := exists_of_bind_ok run
  obtain rfl := Except.ok.inj run
  exact (Machine.Stamped.push machine _).of_later rfl

theorem execute_stamped (run : instruction.execute machine labels = .ok after) :
    machine.Stamped (instruction.written machine) after := by
  obtain ⟨⟨opcode, size, sourceSize⟩, operands⟩ := instruction
  cases opcode with
  | add | sub | imul | or | and | xor => exact combine_stamped run
  | inc | dec | neg | not => exact modify_stamped run
  | sal | shl | sar | shr => exact shift_stamped run
  | mov | movz | movs => exact move_stamped run
  | lea => exact loadAddress_stamped run
  | set condition => exact setIf_stamped run
  | pop => exact popOperand_stamped run
  | push => exact pushOperand_stamped run
  | call => exact enter_stamped run
  | cmp | test | jumpIf | jmp | clt | idiv =>
    apply Machine.Stamped.of_views
    simp [written]
  | ret =>
    apply Machine.Stamped.of_views
    simp only [written]
    split <;> simp

end Instruction

namespace Line

/-- A byte to which a line stores when it is evaluated: one of the destination of its instruction, or
of the slot that a push or a call fills. -/
def StoresTo (line : Line) (machine : Machine) (address : Address) : Prop :=
  ∃ body, line.instruction? = some body ∧
    ∃ region ∈ body.written machine, region.CoversByte address

variable {line : Line} {machine after : Machine} {labels : LabelTable} {address : Address}
  (evaluates : line.evaluate machine labels = .ok after)
include evaluates

theorem evaluate_stamped (stores : line.StoresTo machine address) :
    ∃ byte, after.memory.cell? address = some ⟨byte, machine.step⟩ := by
  obtain ⟨body, found, region, listed, covered⟩ := stores
  simp only [evaluate, found] at evaluates
  split at evaluates
  · rename_i reached run
    obtain rfl := Except.ok.inj evaluates
    exact Instruction.execute_stamped run region listed address covered
  · cases evaluates

theorem evaluate_cell? (spared : ¬ line.StoresTo machine address) :
    after.memory.cell? address = machine.memory.cell? address := by
  cases found : line.instruction? with
  | none =>
    simp only [evaluate, found] at evaluates
    obtain rfl := Except.ok.inj evaluates
    rfl
  | some body =>
    simp only [evaluate, found] at evaluates
    split at evaluates
    · rename_i reached run
      obtain rfl := Except.ok.inj evaluates
      obtain ⟨update, effect, _⟩ := Instruction.execute_effect run
      apply effect.outside.memory
      intro region listed covered
      exact spared ⟨body, found, region, listed, covered⟩
    · cases evaluates

end Line

end AsmLab
