import AsmLab.Proofs.Exec.Footprint
import AsmLab.Proofs.Machine.ReadBack

/-! What instructions store, as effects: the regions of registers and memory that change and the update
of the flags. The effects of single stores compose to those of whole instructions. -/
namespace AsmLab

open Source (exists_of_bind_ok)

/-- A part of a machine that one store changes: a view of a register, or consecutive bytes. -/
inductive Region where
  | view (register : Register)
  | bytes (start : Address) (size : Size)
  deriving DecidableEq, Repr

namespace Region

/-- Whether a bit of a 64-bit register belongs to the region. -/
def CoversBit (region : Region) (parent : Gpr) (index : Nat) : Prop :=
  match region with
  | view register =>
    register.parent = parent ∧ register.shift ≤ index ∧ index < register.shift + register.size.bits
  | bytes _ _ => False

/-- Whether a byte of memory belongs to the region. -/
def CoversByte (region : Region) (address : Address) : Prop :=
  match region with
  | view _ => False
  | bytes start size => (address - start).toNat < size.bytes

instance (region : Region) (address : Address) : Decidable (region.CoversByte address) :=
  match region with
  | view _ => inferInstanceAs (Decidable False)
  | bytes start size => inferInstanceAs (Decidable ((address - start).toNat < size.bytes))

end Region

theorem Memory.ext_cell? {first second : Memory}
    (same : ∀ address, first.cell? address = second.cell? address) : first = second := by
  obtain ⟨cells⟩ := first
  obtain ⟨others⟩ := second
  exact congrArg Memory.mk (Std.ExtTreeMap.ext_getElem? fun {address} => same address)

/-- Registers and memory of two machines differ inside some regions only. -/
structure Machine.SameOutside (regions : List Region) (before after : Machine) : Prop where
  registers : ∀ parent index, (∀ region ∈ regions, ¬ region.CoversBit parent index) →
    (after.registers.get parent).getLsbD index = (before.registers.get parent).getLsbD index
  memory : ∀ address, (∀ region ∈ regions, ¬ region.CoversByte address) →
    after.memory.cell? address = before.memory.cell? address

namespace Machine.SameOutside

variable {regions others : List Region} {before middle after : Machine}

theorem of_eq (registers : after.registers = before.registers)
    (memory : after.memory = before.memory) : before.SameOutside regions after where
  registers _ _ _ := by rw [registers]
  memory _ _ := by rw [memory]

theorem trans (first : before.SameOutside regions middle)
    (second : middle.SameOutside others after) : before.SameOutside (regions ++ others) after where
  registers parent index outside := by
    obtain ⟨left, right⟩ := List.forall_mem_append.mp outside
    exact (second.registers parent index right).trans (first.registers parent index left)
  memory address outside := by
    obtain ⟨left, right⟩ := List.forall_mem_append.mp outside
    exact (second.memory address right).trans (first.memory address left)

theorem setRegister (machine : Machine) (register : Register) (value : Int) :
    machine.SameOutside [.view register] (machine.setRegister register value) where
  registers parent index outside :=
    RegisterFile.getLsbD_setView _ _ _ parent index (outside _ (List.mem_singleton_self _))
  memory _ _ := rfl

theorem setStackPointer (machine : Machine) (address : Address) :
    machine.SameOutside [.view Gpr.rsp.full] (machine.setStackPointer address) where
  registers parent index outside := by
    have uncovered := outside _ (List.mem_singleton_self _)
    rw [Machine.setStackPointer, RegisterFile.get_set]
    split
    · rename_i same
      have beyond : 64 ≤ index := by
        by_contra inside
        exact uncovered ⟨same, Nat.zero_le _, Nat.lt_of_not_le inside⟩
      rw [BitVec.getLsbD_of_ge _ _ beyond, BitVec.getLsbD_of_ge _ _ beyond]
    · rfl
  memory _ _ := rfl

theorem store (machine : Machine) (address : Address) (size : Size) (value : Int) :
    machine.SameOutside [.bytes address size] (machine.store address size value) where
  registers _ _ _ := rfl
  memory _ outside := machine.cell?_store address size value (outside _ (List.mem_singleton_self _))

/-- What happens to the counters and flags of a machine does not matter. -/
theorem of_later {later : Machine} (same : before.SameOutside regions after)
    (registers : later.registers = after.registers) (memory : later.memory = after.memory) :
    before.SameOutside regions later where
  registers := by
    rw [registers]
    exact same.registers
  memory := by
    rw [memory]
    exact same.memory

/-- Memory is the same if only registers may differ. -/
theorem memory_eq (same : before.SameOutside regions after)
    (views : ∀ region ∈ regions, ∃ register, region = .view register) :
    after.memory = before.memory := by
  refine Memory.ext_cell? fun address => same.memory address fun region member => ?_
  obtain ⟨register, rfl⟩ := views region member
  exact id

end Machine.SameOutside

/-- Some regions changed, and the flags took an update. -/
structure Machine.Effect (regions : List Region) (update : FlagUpdate) (before after : Machine) :
    Prop where
  outside : before.SameOutside regions after
  flags : after.flags = update.apply before.flags

/-- The region that a store through an operand changes. -/
def Operand.region (operand : Operand LabelRef) (size : Size) (machine : Machine) : List Region :=
  match operand with
  | register reg => [.view reg]
  | memory reference => [.bytes (reference.address machine.registers) size]
  | immediate _ | label _ => []

namespace Machine.Effect

variable {regions others : List Region} {update : FlagUpdate} {before middle after : Machine}

/-- What happens to the counters of a machine does not matter. -/
theorem of_later {later : Machine} (effect : before.Effect regions update after)
    (registers : later.registers = after.registers) (memory : later.memory = after.memory)
    (flags : later.flags = after.flags) : before.Effect regions update later :=
  ⟨effect.outside.of_later registers memory, flags.trans effect.flags⟩

theorem none : before.Effect [] .none before :=
  ⟨.of_eq rfl rfl, rfl⟩

theorem trans (first : before.Effect regions .none middle)
    (second : middle.Effect others .none after) : before.Effect (regions ++ others) .none after :=
  ⟨first.outside.trans second.outside, second.flags.trans first.flags⟩

theorem complete (stored : before.Effect regions .none after) (update : FlagUpdate) :
    before.Effect regions update (after.complete update) where
  outside := stored.outside.of_later rfl rfl
  flags := congrArg update.apply stored.flags

theorem advance (effect : before.Effect regions update after) :
    before.Effect regions update after.advance :=
  effect.of_later rfl rfl rfl

theorem setRegister (machine : Machine) (register : Register) (value : Int) :
    machine.Effect [.view register] .none (machine.setRegister register value) :=
  ⟨.setRegister machine register value, rfl⟩

theorem setStackPointer (machine : Machine) (address : Address) :
    machine.Effect [.view Gpr.rsp.full] .none (machine.setStackPointer address) :=
  ⟨.setStackPointer machine address, rfl⟩

theorem store (machine : Machine) (address : Address) (size : Size) (value : Int) :
    machine.Effect [.bytes address size] .none (machine.store address size value) :=
  ⟨.store machine address size value, rfl⟩

theorem push (machine : Machine) (value : Int) :
    machine.Effect [.view Gpr.rsp.full, .bytes (machine.stackPointer - 8) .quad] .none
      (machine.push value) :=
  (setStackPointer machine _).trans (store _ _ .quad value)

theorem write {operand : Operand LabelRef} {size : Size} {value : Int} {machine stored : Machine}
    (wrote : operand.write size value machine = .ok stored) :
    machine.Effect (operand.region size machine) .none stored := by
  cases operand with
  | immediate _ | label _ => cases wrote
  | register register =>
    obtain rfl := Except.ok.inj wrote
    exact setRegister machine register value
  | memory reference =>
    obtain rfl := Except.ok.inj wrote
    exact store machine _ size value

end Machine.Effect

/-- The operand to which an instruction with a destination stores. -/
def Operands.destination? : Operands LabelRef → Option (Operand LabelRef)
  | nullary => none
  | unary operand => some operand
  | binary _ destination => some destination

/-- The region that a store to the destination changes. -/
def Operands.stored (operands : Operands LabelRef) (size : Size) (machine : Machine) :
    List Region :=
  operands.destination?.elim [] fun destination => destination.region size machine

namespace Instruction

variable {instruction : Instruction LabelRef} {machine after : Machine} {labels : LabelTable}

theorem combine_effect {operation : Size → Int → Int → Alu.Result}
    (run : instruction.combine machine labels operation = .ok after) :
    ∃ update, machine.Effect (instruction.operands.stored instruction.mnemonic.size machine)
      update after := by
  obtain ⟨⟨source, destination⟩, shape, run⟩ := exists_of_bind_ok run
  obtain ⟨first, _, run⟩ := exists_of_bind_ok run
  obtain ⟨second, _, run⟩ := exists_of_bind_ok run
  obtain ⟨stored, wrote, run⟩ := exists_of_bind_ok run
  obtain rfl := Except.ok.inj run
  rw [binary_ok shape]
  exact ⟨_, (Machine.Effect.write wrote).complete _⟩

theorem compare_effect {operation : Size → Int → Int → Alu.Result}
    (run : instruction.compare machine labels operation = .ok after) :
    ∃ update, machine.Effect [] update after := by
  obtain ⟨⟨source, destination⟩, _, run⟩ := exists_of_bind_ok run
  obtain ⟨first, _, run⟩ := exists_of_bind_ok run
  obtain ⟨second, _, run⟩ := exists_of_bind_ok run
  obtain rfl := Except.ok.inj run
  exact ⟨_, Machine.Effect.none.complete _⟩

theorem modify_effect {operation : Size → Int → Alu.Result}
    (run : instruction.modify machine labels operation = .ok after) :
    ∃ value, machine.Effect (instruction.operands.stored instruction.mnemonic.size machine)
      (operation instruction.mnemonic.size value).flags after := by
  obtain ⟨destination, shape, run⟩ := exists_of_bind_ok run
  obtain ⟨value, _, run⟩ := exists_of_bind_ok run
  obtain ⟨stored, wrote, run⟩ := exists_of_bind_ok run
  obtain rfl := Except.ok.inj run
  rw [unary_ok shape]
  exact ⟨value, (Machine.Effect.write wrote).complete _⟩

theorem shift_effect {operation : Size → Int → Nat → Alu.Result}
    (run : instruction.shift machine labels operation = .ok after) :
    ∃ source destination amount value, instruction.operands = .binary source destination ∧
      source.read .byte machine labels = .ok amount ∧
      machine.Effect (instruction.operands.stored instruction.mnemonic.size machine)
        (operation instruction.mnemonic.size value (Alu.shiftCount amount)).flags after := by
  obtain ⟨⟨source, destination⟩, shape, run⟩ := exists_of_bind_ok run
  obtain ⟨amount, read, run⟩ := exists_of_bind_ok run
  obtain ⟨value, _, run⟩ := exists_of_bind_ok run
  obtain ⟨stored, wrote, run⟩ := exists_of_bind_ok run
  obtain rfl := Except.ok.inj run
  refine ⟨source, destination, amount, value, binary_ok shape, read, ?_⟩
  rw [binary_ok shape]
  exact (Machine.Effect.write wrote).complete _

theorem move_effect {width : Size} {convert : Int → Int}
    (run : instruction.move machine labels width convert = .ok after) :
    machine.Effect (instruction.operands.stored instruction.mnemonic.size machine) .none after := by
  obtain ⟨⟨source, destination⟩, shape, run⟩ := exists_of_bind_ok run
  obtain ⟨value, _, run⟩ := exists_of_bind_ok run
  obtain ⟨stored, wrote, run⟩ := exists_of_bind_ok run
  obtain rfl := Except.ok.inj run
  rw [binary_ok shape]
  exact (Machine.Effect.write wrote).advance

theorem loadAddress_effect (run : instruction.loadAddress machine = .ok after) :
    machine.Effect (instruction.operands.stored instruction.mnemonic.size machine) .none after := by
  obtain ⟨⟨source, destination⟩, shape, run⟩ := exists_of_bind_ok run
  cases source with
  | immediate _ | register _ | label _ => cases run
  | memory reference =>
    obtain ⟨stored, wrote, run⟩ := exists_of_bind_ok run
    obtain rfl := Except.ok.inj run
    rw [binary_ok shape]
    exact (Machine.Effect.write wrote).advance

theorem divide_effect (run : instruction.divide machine labels = .ok after) :
    machine.Effect [.view (dividendRegisters instruction.mnemonic.size).2,
      .view (dividendRegisters instruction.mnemonic.size).1] .none after := by
  rw [divide_eq] at run
  obtain ⟨operand, _, run⟩ := exists_of_bind_ok run
  obtain ⟨divisor, _, run⟩ := exists_of_bind_ok run
  split at run
  · cases run
  · unfold settle at run
    split at run
    · cases run
    · obtain rfl := Except.ok.inj run
      exact ((Machine.Effect.setRegister ..).trans (.setRegister ..)).advance

theorem pushOperand_effect (run : instruction.pushOperand machine labels = .ok after) :
    machine.Effect [.view Gpr.rsp.full, .bytes (machine.stackPointer - 8) .quad] .none after := by
  obtain ⟨operand, _, run⟩ := exists_of_bind_ok run
  obtain ⟨value, _, run⟩ := exists_of_bind_ok run
  obtain rfl := Except.ok.inj run
  exact (Machine.Effect.push machine value).advance

theorem popOperand_effect (run : instruction.popOperand machine = .ok after) :
    machine.Effect (.view Gpr.rsp.full :: instruction.operands.stored .quad
      (machine.setStackPointer (machine.stackPointer + 8))) .none after := by
  obtain ⟨destination, shape, run⟩ := exists_of_bind_ok run
  obtain ⟨stored, wrote, run⟩ := exists_of_bind_ok run
  obtain rfl := Except.ok.inj run
  rw [unary_ok shape]
  exact ((Machine.Effect.setStackPointer machine _).trans (.write wrote)).advance

theorem setIf_effect {condition : Bool} (run : instruction.setIf machine condition = .ok after) :
    machine.Effect (instruction.operands.stored .byte machine) .none after := by
  obtain ⟨destination, shape, run⟩ := exists_of_bind_ok run
  obtain ⟨stored, wrote, run⟩ := exists_of_bind_ok run
  obtain rfl := Except.ok.inj run
  rw [unary_ok shape]
  exact (Machine.Effect.write wrote).advance

theorem branchIf_effect {condition : Bool}
    (run : instruction.branchIf machine labels condition = .ok after) :
    machine.Effect [] .none after := by
  cases condition with
  | false =>
    obtain rfl := Except.ok.inj run
    exact Machine.Effect.none.advance
  | true =>
    obtain ⟨line, _, run⟩ := exists_of_bind_ok run
    obtain rfl := Except.ok.inj run
    exact Machine.Effect.none.of_later rfl rfl rfl

theorem enter_effect (run : instruction.enter machine labels = .ok after) :
    machine.Effect [.view Gpr.rsp.full, .bytes (machine.stackPointer - 8) .quad] .none after := by
  obtain ⟨line, _, run⟩ := exists_of_bind_ok run
  obtain rfl := Except.ok.inj run
  exact (Machine.Effect.push machine _).of_later rfl rfl rfl

theorem leave_effect (run : machine.leave = .ok after) :
    machine.Effect (if machine.callDepth ≤ 0 then [] else [.view Gpr.rsp.full]) .none after := by
  unfold Machine.leave at run
  split at run
  · rename_i top
    obtain rfl := Except.ok.inj run
    rw [if_pos top]
    exact Machine.Effect.none.of_later rfl rfl rfl
  · rename_i inside
    obtain ⟨line, _, run⟩ := exists_of_bind_ok run
    obtain rfl := Except.ok.inj run
    rw [if_neg inside]
    exact (Machine.Effect.setStackPointer machine _).of_later rfl rfl rfl

end Instruction

end AsmLab
