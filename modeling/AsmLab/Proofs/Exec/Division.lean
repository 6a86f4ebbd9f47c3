import AsmLab.Proofs.Exec.Control
import AsmLab.Proofs.Exec.OperandContents
import AsmLab.Proofs.Exec.StoreEffects

/-! Signed division. An accepted division either faults or is exact: quotient and remainder come out
whole in the halves of the dividend, and no other part of the machine changes. -/
namespace AsmLab

theorem Int.natAbs_tmod_lt (dividend : Int) {divisor : Int} (nonzero : divisor ≠ 0) :
    (dividend.tmod divisor).natAbs < divisor.natAbs := by
  rw [Int.natAbs_tmod]
  exact Nat.mod_lt _ (Int.natAbs_pos.mpr nonzero)

/-- The signed numbers of a width. -/
def Size.range (size : Size) : Set Int :=
  Set.Ico (-(2 : Int) ^ (size.bits - 1)) ((2 : Int) ^ (size.bits - 1))

namespace Size

variable {size : Size} {value : Int}

theorem fits_iff_mem_range : size.fits value = true ↔ value ∈ size.range :=
  size.fits_iff value

theorem truncate_of_mem_range (inside : value ∈ size.range) : size.truncate value = value :=
  size.truncate_of_range inside.1 inside.2

theorem toInt_mem_range (bits : BitVec size.bits) : bits.toInt ∈ size.range :=
  ⟨BitVec.le_toInt bits, BitVec.toInt_lt⟩

/-- A remainder is nearer to zero than the divisor, whatever the dividend is. -/
theorem tmod_mem_range (dividend : Int) {divisor : Int} (nonzero : divisor ≠ 0)
    (inside : divisor ∈ size.range) : dividend.tmod divisor ∈ size.range := by
  obtain ⟨low, high⟩ := inside
  have nearer := Int.natAbs_tmod_lt dividend nonzero
  constructor <;> omega

end Size

namespace Machine

variable (machine : Machine) (size : Size)

/-- The number in the low half of a dividend, where the quotient goes. -/
def lowHalf : Int :=
  machine.registers.readSigned (Instruction.dividendRegisters size).2

/-- The number in the high half of a dividend, where the remainder goes. -/
def highHalf : Int :=
  machine.registers.readSigned (Instruction.dividendRegisters size).1

/-- A machine after a division: quotient and remainder are in the halves of the dividend, and only
these have changed of registers, memory and flags. -/
structure Divided (divisor : Int) (before after : Machine) : Prop where
  quotient : after.lowHalf size = (before.dividend size).tdiv divisor
  exact : before.dividend size = after.lowHalf size * divisor + after.highHalf size
  nearer : |after.highHalf size| < |divisor|
  sign : after.highHalf size = 0 ∨ (after.highHalf size).sign = (before.dividend size).sign
  registers : before.SameOutside [.view (Instruction.dividendRegisters size).2,
    .view (Instruction.dividendRegisters size).1] after
  memory : after.memory = before.memory
  flags : after.flags = before.flags

variable {size}

/-- The two halves of a dividend share no bit, also where they are bytes of one register. -/
theorem halves_setRegister {quotient remainder : Int} (low : quotient ∈ size.range)
    (high : remainder ∈ size.range) :
    let after := (machine.setRegister (Instruction.dividendRegisters size).2 quotient).setRegister
      (Instruction.dividendRegisters size).1 remainder
    after.lowHalf size = quotient ∧ after.highHalf size = remainder := by
  intro after
  obtain ⟨highSize, lowSize⟩ : (Instruction.dividendRegisters size).1.size = size ∧
      (Instruction.dividendRegisters size).2.size = size := by
    cases size <;> exact ⟨rfl, rfl⟩
  have apart : (Instruction.dividendRegisters size).1.parent =
        (Instruction.dividendRegisters size).2.parent →
      (Instruction.dividendRegisters size).2.shift +
          (Instruction.dividendRegisters size).2.size.bits ≤
        (Instruction.dividendRegisters size).1.shift := by
    cases size <;> decide
  constructor
  · calc after.lowHalf size
        = (machine.registers.write (Instruction.dividendRegisters size).2 quotient).readSigned
            (Instruction.dividendRegisters size).2 :=
          congrArg BitVec.toInt
            (RegisterFile.view_setView_of_disjoint _ _ fun same => .inl (apart same))
      _ = (Instruction.dividendRegisters size).2.size.truncate quotient :=
          RegisterFile.readSigned_write ..
      _ = quotient := by rw [lowSize, Size.truncate_of_mem_range low]
  · calc after.highHalf size
        = (Instruction.dividendRegisters size).1.size.truncate remainder :=
          RegisterFile.readSigned_write ..
      _ = remainder := by rw [highSize, Size.truncate_of_mem_range high]

namespace Divided

variable {size : Size} {divisor : Int} {before after : Machine}

theorem of_tmod (nonzero : divisor ≠ 0)
    (low : after.lowHalf size = (before.dividend size).tdiv divisor)
    (high : after.highHalf size = (before.dividend size).tmod divisor)
    (registers : before.SameOutside [.view (Instruction.dividendRegisters size).2,
      .view (Instruction.dividendRegisters size).1] after)
    (flags : after.flags = before.flags) : Divided size divisor before after where
  quotient := low
  exact := by rw [low, high, Int.tdiv_mul_add_tmod]
  nearer := by
    rw [high, Int.abs_eq_natAbs, Int.abs_eq_natAbs]
    exact Int.ofNat_lt.mpr (Int.natAbs_tmod_lt _ nonzero)
  sign := by
    rw [high]
    by_cases divides : divisor ∣ before.dividend size
    · exact .inl (Int.tmod_eq_zero_of_dvd divides)
    · exact .inr ((Int.sign_tmod ..).trans (if_neg divides))
  registers := registers
  memory := registers.memory_eq (by simp)
  flags := flags

theorem countStep (divided : Divided size divisor before after) :
    Divided size divisor before after.countStep :=
  { divided with registers := divided.registers.of_later rfl rfl }

end Divided

end Machine

namespace Instruction

variable {instruction : Instruction LabelRef} {labels : LabelTable}

theorem divide_of_read {divisor : Operand LabelRef} {value : Int} {machine : Machine}
    (shape : instruction.operands = .unary divisor)
    (read : divisor.read instruction.mnemonic.size machine labels = .ok value)
    (nonzero : value ≠ 0) :
    instruction.divide machine labels = settle instruction.mnemonic.size (Alu.divide?
      instruction.mnemonic.size (machine.dividend instruction.mnemonic.size) value) machine := by
  simp only [divide_eq, unary, shape, read, bind, Except.bind, if_neg nonzero]

theorem settle_divided (machine : Machine) {size : Size} {divisor : Int} (nonzero : divisor ≠ 0)
    (inside : divisor ∈ size.range) (fits : (machine.dividend size).tdiv divisor ∈ size.range) :
    ∃ after, settle size (Alu.divide? size (machine.dividend size) divisor) machine = .ok after ∧
      Machine.Divided size divisor machine after := by
  have result : Alu.divide? size (machine.dividend size) divisor =
      some ((machine.dividend size).tdiv divisor, (machine.dividend size).tmod divisor) :=
    if_pos (Size.fits_iff_mem_range.mpr fits)
  obtain ⟨low, high⟩ :=
    machine.halves_setRegister fits (Size.tmod_mem_range (machine.dividend size) nonzero inside)
  rw [result]
  refine ⟨_, rfl, .of_tmod nonzero low high ?_ rfl⟩
  exact ((Machine.SameOutside.setRegister ..).trans (.setRegister ..)).of_later rfl rfl

/-- An instruction that divides by an operand that its place admits. -/
theorem execute_division (machine : Machine) (labels : LabelTable)
    (matched : (instruction.operands.map LabelRef.name).Match instruction.mnemonic.slots)
    (divides : instruction.mnemonic.opcode = .idiv) :
    ∃ divisor, instruction.operands = .unary divisor ∧
      let size := instruction.mnemonic.size
      let value := (divisor.contents size machine).toInt
      let quotient := (machine.dividend size).tdiv value
      (value = 0 → instruction.execute machine labels = .error .divisionByZero) ∧
      (value ≠ 0 → quotient ∉ size.range →
        instruction.execute machine labels = .error .divisionOverflow) ∧
      (value ≠ 0 → quotient ∈ size.range →
        ∃ after, instruction.execute machine labels = .ok after ∧
          Machine.Divided size value machine after) := by
  obtain ⟨⟨opcode, size, sourceSize⟩, operands⟩ := instruction
  obtain rfl : opcode = .idiv := divides
  obtain ⟨divisor, rfl, admitted⟩ := matched.exists_unary
  have read := Operand.read_location admitted machine labels
  refine ⟨divisor, rfl, ?_, ?_, ?_⟩
  · intro zero
    rw [zero] at read
    exact divide_of_zero rfl read
  · intro nonzero wide
    obtain ⟨after, run⟩ := divide_of_ne_zero rfl read nonzero
    exact run.trans (if_neg (Size.fits_iff_mem_range.not.mpr wide))
  · intro nonzero fits
    obtain ⟨after, settled, divided⟩ :=
      settle_divided machine nonzero (Size.toInt_mem_range _) fits
    exact ⟨after, (divide_of_read rfl read nonzero).trans settled, divided⟩

end Instruction

/-- An accepted division, on any machine, succeeds if and only if its divisor is not zero and its
quotient is a number of its width. The divisor is what the operand holds before, in whatever
register or byte of memory that is. -/
theorem Line.Accepted.evaluate_division {line : Line} {body : Instruction LabelRef}
    (accepted : line.Accepted body) (divides : body.mnemonic.opcode = .idiv) (machine : Machine)
    (labels : LabelTable) :
    ∃ divisor, body.operands = .unary divisor ∧
      let size := body.mnemonic.size
      let value := (divisor.contents size machine).toInt
      let quotient := (machine.dividend size).tdiv value
      ((∃ after, line.evaluate machine labels = .ok after) ↔ value ≠ 0 ∧ quotient ∈ size.range) ∧
      (∀ after, line.evaluate machine labels = .ok after →
        Machine.Divided size value machine after) ∧
      (value = 0 → line.evaluate machine labels = .error ⟨line.number, .divisionByZero⟩) ∧
      (value ≠ 0 → quotient ∉ size.range →
        line.evaluate machine labels = .error ⟨line.number, .divisionOverflow⟩) := by
  obtain ⟨divisor, shape, byZero, overflow, exact⟩ :=
    body.execute_division machine labels accepted.matched divides
  have run := line.evaluate_some accepted.found machine labels
  refine ⟨divisor, shape, ?_⟩
  intro size value quotient
  by_cases zero : value = 0
  · rw [byZero zero] at run
    have failed : line.evaluate machine labels = .error ⟨line.number, .divisionByZero⟩ := run
    simp [failed, zero]
  by_cases fits : quotient ∈ size.range
  · obtain ⟨after, executed, divided⟩ := exact zero fits
    rw [executed] at run
    have succeeded : line.evaluate machine labels = .ok after.countStep := run
    simpa [succeeded, zero, fits] using divided.countStep
  · rw [overflow zero fits] at run
    have failed : line.evaluate machine labels = .error ⟨line.number, .divisionOverflow⟩ := run
    simp [failed, zero, fits]

/-- The low half as the divisor of the whole: -16257 over the 127 in its own low byte, with the
lowest quotient of the width. -/
theorem Line.Accepted.evaluate_division_low :
    let divisor : Operand LabelRef := .register (.low .rax .byte)
    let body : Instruction LabelRef := ⟨.uniform .idiv .byte, .unary divisor⟩
    let line : Line := ⟨0, .instruction body, none, false⟩
    let machine :=
      (Machine.initial Machine.defaultStackBase).setRegister (.low .rax .word) (-16257)
    line.Accepted body ∧
      ∃ after, line.evaluate machine .empty = .ok after ∧
        after.lowHalf .byte = -128 ∧ after.highHalf .byte = -1 := by
  intro divisor body line machine
  have accepted : line.Accepted body := ⟨⟨.empty, ⟨1, .empty⟩, "idivb %al", by decide +kernel⟩, rfl⟩
  obtain ⟨_, shape, succeeds, divides, _⟩ := accepted.evaluate_division rfl machine .empty
  obtain rfl := Operands.unary.inj shape
  have value : (divisor.contents .byte machine).toInt = 127 := by decide +kernel
  have dividend : machine.dividend .byte = -16257 := by decide +kernel
  have quotient : (machine.dividend .byte).tdiv (divisor.contents .byte machine).toInt = -128 := by
    rw [value, dividend]
    decide
  obtain ⟨after, evaluates⟩ := succeeds.mpr
    ⟨by decide +kernel, Size.fits_iff_mem_range.mp (by decide +kernel)⟩
  have divided := divides after evaluates
  have low : after.lowHalf .byte = -128 := divided.quotient.trans quotient
  have exact : machine.dividend .byte =
      after.lowHalf .byte * (divisor.contents .byte machine).toInt + after.highHalf .byte :=
    divided.exact
  rw [dividend, low, value] at exact
  exact ⟨accepted, after, evaluates, low, by omega⟩

end AsmLab
