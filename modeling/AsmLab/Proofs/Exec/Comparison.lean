import AsmLab.Proofs.Exec.Arithmetic

/-! What conditions say after a comparison. The flags of a subtraction decide each condition as an
equality or an order of the two numbers, so a conditional line goes by the numbers themselves. -/
namespace AsmLab

/-- What a condition says about two numbers that were compared. -/
def Condition.compares {width : Nat} (condition : Condition)
    (destination source : BitVec width) : Bool :=
  match condition with
  | e => destination == source
  | ne => destination != source
  | s => (destination - source).msb
  | ns => !(destination - source).msb
  | g => source.slt destination
  | ge => source.sle destination
  | l => destination.slt source
  | le => destination.sle source
  | a => source.ult destination
  | ae => source.ule destination
  | b => destination.ult source
  | be => destination.ule source

section Comparison

variable {width : Nat} (destination source : BitVec width)

theorem sub_beq_zero : (destination - source == 0#(width)) = (destination == source) := by
  rw [Bool.eq_iff_iff, beq_iff_eq, beq_iff_eq, BitVec.sub_eq_iff_eq_add, BitVec.zero_add]

/-- The sign of a difference lies exactly if the difference overflows. -/
theorem msb_sub_bne_ssubOverflow :
    ((destination - source).msb != destination.ssubOverflow source) = destination.slt source := by
  by_cases overflow : destination.ssubOverflow source = true
  · have signs := overflow
    rw [BitVec.ssubOverflow_eq] at signs
    rw [overflow, BitVec.slt_eq_decide, Bool.eq_iff_iff]
    simp only [BitVec.msb_eq_toInt, Bool.or_eq_true, Bool.and_eq_true, Bool.not_eq_true',
      decide_eq_true_eq, decide_eq_false_iff_not, bne_iff_ne, ne_eq] at signs ⊢
    omega
  · have exact := BitVec.toInt_sub_of_not_ssubOverflow overflow
    rw [Bool.eq_false_of_not_eq_true overflow, BitVec.msb_eq_toInt, exact, BitVec.slt_eq_decide,
      Bool.bne_false, decide_eq_decide]
    omega

theorem ule_eq_ult_or_eq :
    destination.ule source = (destination.ult source || destination == source) := by
  rw [Bool.eq_iff_iff, Bool.or_eq_true, BitVec.ule_iff_toNat_le, BitVec.ult_iff_toNat_lt,
    beq_iff_eq, BitVec.toNat_eq]
  exact Nat.le_iff_lt_or_eq

/-- The flags of a subtraction decide every condition as a comparison of the two numbers. -/
theorem Condition.holds_of_difference (condition : Condition) :
    condition.holds (Alu.Outcome.difference destination source).flags =
      condition.compares destination source := by
  have equal := sub_beq_zero destination source
  have less := msb_sub_bne_ssubOverflow destination source
  have notLess : ((destination - source).msb == destination.ssubOverflow source) =
      source.sle destination := by
    rw [BitVec.sle_eq_not_slt, ← less, bne, Bool.not_not]
  cases condition with
  | e => exact equal
  | ne => exact congrArg Bool.not equal
  | s => rfl
  | ns => rfl
  | l => exact less
  | ge => exact notLess
  | le =>
    simp only [holds, compares, Alu.Outcome.difference, Alu.Outcome.of, equal, less]
    rw [BitVec.sle_eq_slt_or_eq, Bool.or_comm]
  | g =>
    simp only [holds, compares, Alu.Outcome.difference, Alu.Outcome.of, equal, notLess]
    rw [BitVec.slt_eq_sle_and_ne, Bool.and_comm, bne_comm]
    rfl
  | b => rfl
  | ae => exact (BitVec.ule_eq_not_ult source destination).symm
  | be =>
    simp only [holds, compares, Alu.Outcome.difference, Alu.Outcome.of, equal]
    exact (ule_eq_ult_or_eq destination source).symm
  | a =>
    simp only [holds, compares, Alu.Outcome.difference, Alu.Outcome.of, equal]
    have notAbove := BitVec.ule_eq_not_ult destination source
    rw [← Bool.not_or, ← Bool.not_inj_iff, Bool.not_not, ← notAbove]
    exact (ule_eq_ult_or_eq destination source).symm

end Comparison

/-- Instructions without a width in their names are one byte wide. -/
theorem Mnemonic.size_of_isUnsized :
    ∀ mnemonic ∈ catalog, mnemonic.opcode.isUnsized = true → mnemonic.size = .byte := by
  decide +kernel

/-- A machine on which every conditional line goes by how two numbers compare. -/
structure Machine.Compared {width : Nat} (machine : Machine) (labels : LabelTable)
    (destination source : BitVec width) : Prop where
  holds : ∀ condition : Condition,
    condition.holds machine.flags = condition.compares destination source
  sets : ∀ {line : Line} {body : Instruction LabelRef} {condition : Condition},
    line.Accepted body → body.mnemonic.opcode = .set condition →
    ∃ place after, body.operands = .unary place ∧ line.evaluate machine labels = .ok after ∧
      place.Stores .byte (if condition.compares destination source then 1 else 0) machine after
  jumps : ∀ {line : Line} {body : Instruction LabelRef} {condition : Condition},
    line.Accepted body → body.mnemonic.opcode = .jumpIf condition →
    ∃ target, body.operands = .unary (.label target) ∧
      line.evaluate machine labels =
        if condition.compares destination source then
          match labels.line? target.id with
          | some number => .ok (machine.jump number).countStep
          | none => .error ⟨line.number, .unresolvedLabel target.name⟩
        else .ok machine.advance.countStep

namespace Instruction

variable {instruction : Instruction LabelRef} {machine : Machine} {labels : LabelTable}

theorem setIf_stores (machine : Machine) {place : Operand LabelRef}
    (shape : instruction.operands = .unary place)
    (admitted : (Slot.location .byte).Admits (place.map LabelRef.name)) (flag : Bool) :
    ∃ after, instruction.setIf machine flag = .ok after ∧
      place.Stores .byte (if flag then 1 else 0) machine after := by
  obtain ⟨stored, wrote, _, stores⟩ := Operand.exists_stores admitted flag.toInt machine
  have bits : BitVec.ofInt Size.byte.bits flag.toInt = if flag then 1 else 0 := by
    cases flag <;> rfl
  rw [bits] at stores
  refine ⟨stored.advance, ?_, stores.of_eq rfl rfl⟩
  simp [setIf, unary, shape, wrote, bind, Except.bind, pure, Except.pure]

theorem branchIf_eq {target : LabelRef} (shape : instruction.operands = .unary (.label target))
    (flag : Bool) :
    instruction.branchIf machine labels flag =
      if flag then
        match labels.line? target.id with
        | some number => .ok (machine.jump number)
        | none => .error (.unresolvedLabel target.name)
      else .ok machine.advance := by
  cases flag with
  | false => rfl
  | true =>
    cases defined : labels.line? target.id with
    | none =>
      simp [branchIf, (target_error_iff shape).mpr ⟨defined, rfl⟩, bind, Except.bind]
    | some number =>
      simp [branchIf, Instruction.target, unary, shape, Operand.read, defined, bind, Except.bind,
        pure, Except.pure]

/-- With and without a destination, a subtraction leaves the flags of the difference. -/
theorem exists_difference (instruction : Instruction LabelRef) (machine : Machine)
    (labels : LabelTable) {source destination : Operand LabelRef}
    (shape : instruction.operands = .binary source destination)
    (matched : (instruction.operands.map LabelRef.name).Match instruction.mnemonic.slots)
    (subtracts : instruction.mnemonic.opcode = .sub ∨ instruction.mnemonic.opcode = .cmp) :
    ∃ after, instruction.execute machine labels = .ok after ∧
      after.flags = (Alu.Outcome.difference
        (destination.contents instruction.mnemonic.size machine)
        (source.contents instruction.mnemonic.size machine)).flags ∧
      (instruction.mnemonic.opcode = .cmp →
        after.registers = machine.registers ∧ after.memory = machine.memory) := by
  have listed : instruction.mnemonic.opcode ∈ Opcode.arithmetic := by
    rcases subtracts with same | same <;> rw [same] <;> decide
  obtain ⟨_, _, outcome, after, places, calculated, run, leaves⟩ :=
    instruction.execute_calculates machine labels matched listed
  rw [shape] at places
  obtain ⟨rfl, rfl⟩ := Prod.mk.inj (Option.some.inj places)
  have difference : outcome = .difference (destination.contents instruction.mnemonic.size machine)
      (source.contents instruction.mnemonic.size machine) := by
    rcases subtracts with same | same <;> rw [same] at calculated <;>
      exact (Option.some.inj calculated).symm
  refine ⟨after, run, difference ▸ leaves.flags_eq, fun compares => ?_⟩
  cases leaves with
  | stored writes =>
    rw [compares] at writes
    cases writes
  | compared _ _ registers memory => exact ⟨registers, memory⟩

end Instruction

theorem Machine.compared_of_holds {width : Nat} {machine : Machine} {labels : LabelTable}
    {destination source : BitVec width}
    (holds : ∀ condition : Condition,
      condition.holds machine.flags = condition.compares destination source) :
    machine.Compared labels destination source where
  holds := holds
  sets {line body condition} accepted sets := by
    have unsized : body.mnemonic.opcode.isUnsized = true := by rw [sets]; rfl
    have byteWide := Mnemonic.size_of_isUnsized _ accepted.listed unsized
    have matched := accepted.matched
    have execute : body.execute machine labels =
        body.setIf machine (condition.holds machine.flags) := by
      simp only [Instruction.execute, sets]
    simp only [Mnemonic.slots, sets, Opcode.slots, byteWide] at matched
    obtain ⟨place, shape, admitted⟩ := matched.exists_unary
    obtain ⟨after, run, stores⟩ :=
      Instruction.setIf_stores machine shape admitted (condition.holds machine.flags)
    refine ⟨place, after.countStep, shape, ?_, ?_⟩
    · simp only [Line.evaluate, accepted.found, execute, run]
    · rw [← holds]
      exact stores.of_eq rfl rfl
  jumps {line body condition} accepted jumps := by
    have matched := accepted.matched
    have execute : body.execute machine labels =
        body.branchIf machine labels (condition.holds machine.flags) := by
      simp only [Instruction.execute, jumps]
    simp only [Mnemonic.slots, jumps, Opcode.slots] at matched
    obtain ⟨operand, shape, admitted⟩ := matched.exists_unary
    obtain ⟨target, rfl⟩ := Operand.exists_of_admits_target admitted
    refine ⟨target, shape, ?_⟩
    simp only [Line.evaluate, accepted.found, execute, Instruction.branchIf_eq shape, holds]
    cases condition.compares destination source with
    | false => rfl
    | true => cases labels.line? target.id <;> rfl

/-- An accepted comparison changes no register and no memory. Its flags are those of the
subtraction, and while they stay every conditional line goes by how the operands compared. -/
theorem Line.Accepted.evaluate_comparison {line : Line} {body : Instruction LabelRef}
    (accepted : line.Accepted body) (compares : body.mnemonic.opcode = .cmp) (machine : Machine)
    (labels : LabelTable) :
    ∃ source destination after,
      body.operands = .binary source destination ∧
      line.evaluate machine labels = .ok after ∧
      after.registers = machine.registers ∧ after.memory = machine.memory ∧
      (∀ later : Machine, later.flags = after.flags →
        later.Compared labels (destination.contents body.mnemonic.size machine)
          (source.contents body.mnemonic.size machine)) ∧
      ∀ other : Line,
        other.instruction? = some { body with mnemonic := { body.mnemonic with opcode := .sub } } →
        ∃ result, other.evaluate machine labels = .ok result ∧ result.flags = after.flags := by
  have matched : (body.operands.map LabelRef.name).Match
      [.value body.mnemonic.size, .location body.mnemonic.size] := by
    have matched := accepted.matched
    rwa [Mnemonic.slots, compares] at matched
  obtain ⟨source, destination, shape, _, _⟩ := matched.exists_binary
  obtain ⟨after, run, flags, kept⟩ :=
    body.exists_difference machine labels shape accepted.matched (.inr compares)
  obtain ⟨registers, memory⟩ := kept compares
  refine ⟨source, destination, after.countStep, shape, ?_, registers, memory, ?_, ?_⟩
  · simp only [Line.evaluate, accepted.found, run]
  · intro later same
    refine Machine.compared_of_holds fun condition => ?_
    rw [same, ← condition.holds_of_difference, ← flags]
    rfl
  · intro other found
    obtain ⟨result, subRun, subFlags, _⟩ :=
      Instruction.exists_difference { body with mnemonic := { body.mnemonic with opcode := .sub } }
        machine labels shape matched (.inl rfl)
    refine ⟨result.countStep, ?_, subFlags.trans flags.symm⟩
    simp only [Line.evaluate, found, subRun]

/-- The least signed byte is less than one, but its difference to one is not negative. -/
theorem Line.Accepted.evaluate_comparison_lowest :
    let body : Instruction LabelRef :=
      ⟨.uniform .cmp .byte, .binary (.immediate ⟨1, .decimal⟩) (.register (.low .rax .byte))⟩
    let line : Line := ⟨0, .instruction body, none, false⟩
    let machine := (Machine.initial Machine.defaultStackBase).setRegister (.low .rax .byte) (-128)
    line.Accepted body ∧
      ∃ after, line.evaluate machine .empty = .ok after ∧ Condition.l.holds after.flags = true ∧
        Condition.a.holds after.flags = true ∧ Condition.s.holds after.flags = false := by
  intro body line machine
  have accepted : line.Accepted body :=
    ⟨⟨.empty, ⟨1, .empty⟩, "cmpb $1, %al", by decide +kernel⟩, rfl⟩
  obtain ⟨source, destination, after, shape, evaluates, _, _, compared, _⟩ :=
    accepted.evaluate_comparison rfl machine .empty
  obtain ⟨rfl, rfl⟩ := Operands.binary.inj shape
  have holds := (compared after rfl).holds
  exact ⟨accepted, after, evaluates, (holds .l).trans (by decide +kernel),
    (holds .a).trans (by decide +kernel), (holds .s).trans (by decide +kernel)⟩

end AsmLab
