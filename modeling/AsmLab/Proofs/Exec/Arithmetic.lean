import AsmLab.Proofs.Exec.Control
import AsmLab.Proofs.Exec.OperandContents

/-! Integer and logical instructions as machine arithmetic. What an accepted one stores and the
flags that it leaves are those of the operation on bit vectors of its width. -/
namespace AsmLab

namespace Opcode

/-- The instructions that calculate with bits of one width. -/
def arithmetic : List Opcode :=
  [add, sub, cmp, inc, dec, neg, imul, and, or, xor, test, not]

/-- The instructions that keep their result to themselves. -/
def comparesOnly : Opcode → Bool
  | cmp | test => true
  | _ => false

/-- What machine arithmetic makes of the contents of destination and source. The flags before matter
where an instruction leaves some of them alone. -/
def outcome? {width : Nat} (opcode : Opcode) (flags : Flags) (destination source : BitVec width) :
    Option (Alu.Outcome width) :=
  match opcode with
  | add =>
    some (.of (destination + source) (destination.uaddOverflow source)
      (destination.saddOverflow source))
  | sub | cmp => some (.difference destination source)
  | inc => some (.of (destination + 1#(width)) flags.carry (destination.saddOverflow 1#(width)))
  | dec => some (.of (destination - 1#(width)) flags.carry (destination.ssubOverflow 1#(width)))
  | neg =>
    some (.of (0#(width) - destination) (destination != 0#(width))
      ((0#(width)).ssubOverflow destination))
  | imul =>
    some (.of (destination * source) (destination.smulOverflow source)
      (destination.smulOverflow source))
  | and | test => some (.of (destination &&& source) false false)
  | or => some (.of (destination ||| source) false false)
  | xor => some (.of (destination ^^^ source) false false)
  | not => some ⟨~~~destination, flags⟩
  | _ => none

end Opcode

/-- The source and the destination of a calculation; a single operand is both. -/
def Operands.places? : Operands LabelRef → Option (Operand LabelRef × Operand LabelRef)
  | nullary => none
  | unary operand => some (operand, operand)
  | binary source destination => some (source, destination)

namespace Instruction

/-- Where an outcome went: its flags are in the machine, and its bits in the destination unless the
instruction only compares. -/
inductive Leaves (instruction : Instruction LabelRef) (destination : Operand LabelRef)
    (outcome : Alu.Outcome instruction.mnemonic.size.bits) (before after : Machine) : Prop where
  | stored (writes : instruction.mnemonic.opcode.comparesOnly = false)
      (flags : after.flags = outcome.flags)
      (stores : destination.Stores instruction.mnemonic.size outcome.bits before after)
  | compared (compares : instruction.mnemonic.opcode.comparesOnly = true)
      (flags : after.flags = outcome.flags) (registers : after.registers = before.registers)
      (memory : after.memory = before.memory)

/-- The instruction succeeds with the outcome that machine arithmetic has for it. -/
def Calculates (instruction : Instruction LabelRef) (machine : Machine) (labels : LabelTable) :
    Prop :=
  ∃ source destination outcome after,
    instruction.operands.places? = some (source, destination) ∧
    instruction.mnemonic.opcode.outcome? machine.flags
        (destination.contents instruction.mnemonic.size machine)
        (source.contents instruction.mnemonic.size machine) = some outcome ∧
    instruction.execute machine labels = .ok after ∧
    instruction.Leaves destination outcome machine after

variable {instruction : Instruction LabelRef} {machine : Machine} {labels : LabelTable}
  {destination : Operand LabelRef}

theorem Leaves.flags_eq {outcome : Alu.Outcome instruction.mnemonic.size.bits} {after : Machine}
    (leaves : instruction.Leaves destination outcome machine after) :
    after.flags = outcome.flags := by
  cases leaves with
  | stored _ flags => exact flags
  | compared _ flags => exact flags

theorem Leaves.countStep {outcome : Alu.Outcome instruction.mnemonic.size.bits} {after : Machine}
    (leaves : instruction.Leaves destination outcome machine after) :
    instruction.Leaves destination outcome machine after.countStep := by
  cases leaves with
  | stored writes flags stores => exact .stored writes flags (stores.of_eq rfl rfl)
  | compared compares flags registers memory => exact .compared compares flags registers memory

/-- A result that encodes an outcome, stored to an admitted place. -/
theorem exists_complete {size : Size} {result : Alu.Result} {outcome : Alu.Outcome size.bits}
    (admitted : (Slot.location size).Admits (destination.map LabelRef.name))
    (encodes : result.Encodes machine.flags outcome) :
    ∃ stored, destination.write size result.value machine = .ok stored ∧
      (stored.complete result.flags).flags = outcome.flags ∧
      destination.Stores size outcome.bits machine (stored.complete result.flags) := by
  obtain ⟨stored, wrote, sameFlags, stores⟩ :=
    Operand.exists_stores admitted result.value machine
  rw [encodes.value, BitVec.ofInt_toInt] at stores
  refine ⟨stored, wrote, ?_, stores.of_eq rfl rfl⟩
  rw [← encodes.flags, ← sameFlags]
  rfl

section Binary

variable {operation : Size → Int → Int → Alu.Result}
  {outcome : BitVec instruction.mnemonic.size.bits → BitVec instruction.mnemonic.size.bits →
    Alu.Outcome instruction.mnemonic.size.bits}
  (matched : (instruction.operands.map LabelRef.name).Match
    [.value instruction.mnemonic.size, .location instruction.mnemonic.size])
  (calculates : ∀ first second,
    instruction.mnemonic.opcode.outcome? machine.flags first second = some (outcome first second))
  (encodes : ∀ first second : BitVec instruction.mnemonic.size.bits,
    (operation instruction.mnemonic.size first.toInt second.toInt).Encodes machine.flags
      (outcome first second))
include matched calculates encodes

theorem combine_calculates (writes : instruction.mnemonic.opcode.comparesOnly = false)
    (runs : instruction.execute machine labels = instruction.combine machine labels operation) :
    instruction.Calculates machine labels := by
  obtain ⟨source, destination, shape, admittedSource, admitted⟩ := matched.exists_binary
  have readFirst := Operand.read_location admitted machine labels
  have readSecond := Operand.read_value admittedSource machine labels
  obtain ⟨stored, wrote, flags, stores⟩ := exists_complete admitted
    (encodes (destination.contents _ machine) (source.contents _ machine))
  refine ⟨source, destination, _, _, congrArg Operands.places? shape, calculates _ _, ?_,
    .stored writes flags stores⟩
  rw [runs]
  simp [combine, binary, shape, readFirst, readSecond, wrote, bind, Except.bind, pure, Except.pure]

theorem compare_calculates (compares : instruction.mnemonic.opcode.comparesOnly = true)
    (runs : instruction.execute machine labels = instruction.compare machine labels operation) :
    instruction.Calculates machine labels := by
  obtain ⟨source, destination, shape, admittedSource, admitted⟩ := matched.exists_binary
  have readFirst := Operand.read_location admitted machine labels
  have readSecond := Operand.read_value admittedSource machine labels
  have encoded := encodes (destination.contents _ machine) (source.contents _ machine)
  refine ⟨source, destination, _, machine.complete _, congrArg Operands.places? shape,
    calculates _ _, ?_, .compared compares encoded.flags rfl rfl⟩
  rw [runs]
  simp [compare, binary, shape, readFirst, readSecond, bind, Except.bind, pure, Except.pure]

end Binary

theorem modify_calculates {operation : Size → Int → Alu.Result}
    {outcome : BitVec instruction.mnemonic.size.bits → Alu.Outcome instruction.mnemonic.size.bits}
    (matched : (instruction.operands.map LabelRef.name).Match
      [.location instruction.mnemonic.size])
    (calculates : ∀ first second,
      instruction.mnemonic.opcode.outcome? machine.flags first second = some (outcome first))
    (encodes : ∀ first : BitVec instruction.mnemonic.size.bits,
      (operation instruction.mnemonic.size first.toInt).Encodes machine.flags (outcome first))
    (writes : instruction.mnemonic.opcode.comparesOnly = false)
    (runs : instruction.execute machine labels = instruction.modify machine labels operation) :
    instruction.Calculates machine labels := by
  obtain ⟨operand, shape, admitted⟩ := matched.exists_unary
  have readFirst := Operand.read_location admitted machine labels
  obtain ⟨stored, wrote, flags, stores⟩ :=
    exists_complete admitted (encodes (operand.contents _ machine))
  refine ⟨operand, operand, _, _, congrArg Operands.places? shape, calculates _ _, ?_,
    .stored writes flags stores⟩
  rw [runs]
  simp [modify, unary, shape, readFirst, wrote, bind, Except.bind, pure, Except.pure]

/-- Every integer or logical instruction whose operands fit their places is machine arithmetic. -/
theorem execute_calculates (instruction : Instruction LabelRef) (machine : Machine)
    (labels : LabelTable)
    (matched : (instruction.operands.map LabelRef.name).Match instruction.mnemonic.slots)
    (listed : instruction.mnemonic.opcode ∈ Opcode.arithmetic) :
    instruction.Calculates machine labels := by
  obtain ⟨⟨opcode, size, sourceSize⟩, operands⟩ := instruction
  cases opcode with
  | add => exact combine_calculates matched (fun _ _ => rfl) (Alu.add_encodes _) rfl rfl
  | sub => exact combine_calculates matched (fun _ _ => rfl) (Alu.sub_encodes _) rfl rfl
  | imul => exact combine_calculates matched (fun _ _ => rfl) (Alu.imul_encodes _) rfl rfl
  | and =>
    exact combine_calculates matched (fun _ _ => rfl) (Alu.logical_encodes _ (· &&& ·)) rfl rfl
  | or =>
    exact combine_calculates matched (fun _ _ => rfl) (Alu.logical_encodes _ (· ||| ·)) rfl rfl
  | xor =>
    exact combine_calculates matched (fun _ _ => rfl) (Alu.logical_encodes _ (· ^^^ ·)) rfl rfl
  | cmp => exact compare_calculates matched (fun _ _ => rfl) (Alu.sub_encodes _) rfl rfl
  | test =>
    exact compare_calculates matched (fun _ _ => rfl) (Alu.logical_encodes _ (· &&& ·)) rfl rfl
  | inc => exact modify_calculates matched (fun _ _ => rfl) (Alu.inc_encodes _) rfl rfl
  | dec => exact modify_calculates matched (fun _ _ => rfl) (Alu.dec_encodes _) rfl rfl
  | neg => exact modify_calculates matched (fun _ _ => rfl) (Alu.neg_encodes _) rfl rfl
  | not => exact modify_calculates matched (fun _ _ => rfl) (Alu.not_encodes _) rfl rfl
  | _ => simp [Opcode.arithmetic] at listed

end Instruction

/-- An accepted integer or logical instruction succeeds on every machine. It leaves what machine
arithmetic makes of the bits that its operands hold. -/
theorem Line.Accepted.evaluate_arithmetic {line : Line} {body : Instruction LabelRef}
    (accepted : line.Accepted body) (listed : body.mnemonic.opcode ∈ Opcode.arithmetic)
    (machine : Machine) (labels : LabelTable) :
    ∃ source destination outcome after,
      body.operands.places? = some (source, destination) ∧
      body.mnemonic.opcode.outcome? machine.flags
          (destination.contents body.mnemonic.size machine)
          (source.contents body.mnemonic.size machine) = some outcome ∧
      line.evaluate machine labels = .ok after ∧
      body.Leaves destination outcome machine after := by
  obtain ⟨source, destination, outcome, after, places, calculated, run, leaves⟩ :=
    body.execute_calculates machine labels accepted.matched listed
  refine ⟨source, destination, outcome, after.countStep, places, calculated, ?_, leaves.countStep⟩
  simp only [Line.evaluate, accepted.found, run]

/-- The two bytes of one register, added to a sum that is too large for a signed byte. -/
theorem Line.Accepted.evaluate_arithmetic_overflow :
    let high : Operand LabelRef := .register (.high .ah)
    let body : Instruction LabelRef :=
      ⟨.uniform .add .byte, .binary (.register (.low .rax .byte)) high⟩
    let line : Line := ⟨0, .instruction body, none, false⟩
    let machine := (Machine.initial Machine.defaultStackBase).setRegister (.low .rax .word) 0x7f01
    line.Accepted body ∧
      ∃ after, line.evaluate machine .empty = .ok after ∧ high.contents .byte after = 0x80 ∧
        after.flags = { sign := true, overflow := true } := by
  intro high body line machine
  have accepted : line.Accepted body :=
    ⟨⟨.empty, ⟨1, .empty⟩, "addb %al, %ah", by decide +kernel⟩, rfl⟩
  obtain ⟨source, destination, outcome, after, places, calculated, evaluates, leaves⟩ :=
    accepted.evaluate_arithmetic (by decide) machine .empty
  obtain ⟨rfl, rfl⟩ := Prod.mk.inj (Option.some.inj places)
  have result : outcome = ⟨0x80, { sign := true, overflow := true }⟩ :=
    Option.some.inj (calculated.symm.trans (by decide +kernel))
  subst result
  cases leaves with
  | stored _ flags stores => exact ⟨accepted, after, evaluates, stores.contents, flags⟩
  | compared compares => cases compares

end AsmLab
