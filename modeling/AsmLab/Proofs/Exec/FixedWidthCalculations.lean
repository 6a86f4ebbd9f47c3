import AsmLab.Proofs.Exec.FixedWidthEvaluation

/-! What is calculated in 128 bits. Among the calculations of an accepted line is the one that its
instruction is for, of the numbers that its operands hold. -/
namespace AsmLab.FixedWidth

open Traced (Agrees)
open Int128 (ofWord)

namespace Traced

variable {Value Next : Type} {traced : Traced Value} {next : Value → Traced Next}
  {calculation : Calculation} {value : Value}

theorem mem_bind_first (noted : calculation ∈ traced.calculations) :
    calculation ∈ (traced >>= next).calculations := by
  obtain ⟨outcome, calculations⟩ := traced
  cases outcome with
  | ok value => exact List.mem_append_left _ noted
  | error cause => exact noted

theorem mem_bind_next (ends : traced.outcome = .ok value)
    (noted : calculation ∈ (next value).calculations) :
    calculation ∈ (traced >>= next).calculations := by
  obtain ⟨outcome, calculations⟩ := traced
  obtain rfl : outcome = .ok value := ends
  exact List.mem_append_right _ noted

/-- What agrees with a run that ends has ended itself. -/
theorem Agrees.exists_ok {Exact : Type} {related : Value → Exact → Prop}
    {run : Except FaultCause Exact} {exact : Exact} (agrees : traced.Agrees related run)
    (ends : run = .ok exact) : ∃ value, traced.outcome = .ok value ∧ related value exact := by
  obtain ⟨outcome, calculations⟩ := traced
  subst ends
  obtain ⟨same⟩ := agrees.outcome
  exact ⟨_, rfl, same⟩

end Traced

/-- The calculation of two operands, what the destination holds first. -/
def binary? : Opcode → Option (Int → Int → Calculation)
  | .add => some .sum
  | .sub | .cmp => some .difference
  | .imul => some .product
  | _ => none

def unary? : Opcode → Option (Int → Calculation)
  | .inc => some (.sum · 1)
  | .dec => some (.sum · (-1))
  | .neg => some .negation
  | _ => none

/-- The calculation that an instruction is for. Its numbers are read over the integers. -/
inductive Calculates (machine : Machine) (labels : LabelTable) :
    Instruction LabelRef → Calculation → Prop where
  | binary {opcode : Opcode} {size sourceSize : Size} {source destination : Operand LabelRef}
      {calculation : Int → Int → Calculation} {first second : Int}
      (listed : binary? opcode = some calculation)
      (holds : destination.read size machine labels = .ok first)
      (sourceHolds : source.read size machine labels = .ok second) :
      Calculates machine labels ⟨⟨opcode, size, sourceSize⟩, .binary source destination⟩
        (calculation first second)
  | unary {opcode : Opcode} {size sourceSize : Size} {operand : Operand LabelRef}
      {calculation : Int → Calculation} {value : Int} (listed : unary? opcode = some calculation)
      (holds : operand.read size machine labels = .ok value) :
      Calculates machine labels ⟨⟨opcode, size, sourceSize⟩, .unary operand⟩ (calculation value)
  | shift {opcode : Opcode} {size sourceSize : Size} {source destination : Operand LabelRef}
      {value count : Int} (listed : opcode = .sal ∨ opcode = .shl)
      (counts : source.read .byte machine labels = .ok count)
      (holds : destination.read size machine labels = .ok value) :
      Calculates machine labels ⟨⟨opcode, size, sourceSize⟩, .binary source destination⟩
        (.shiftedLeft value (Alu.shiftCount count))
  | dividend {size sourceSize : Size} {operand : Operand LabelRef} {divisor : Int}
      (holds : operand.read size machine labels = .ok divisor) (nonzero : divisor ≠ 0) :
      Calculates machine labels ⟨⟨.idiv, size, sourceSize⟩, .unary operand⟩
        (.joined (machine.registers.readSigned (Instruction.dividendRegisters size).1 <<< size.bits)
          (machine.registers.read (Instruction.dividendRegisters size).2).toNat)
  | quotient {size sourceSize : Size} {operand : Operand LabelRef} {divisor : Int}
      (holds : operand.read size machine labels = .ok divisor) (nonzero : divisor ≠ 0) :
      Calculates machine labels ⟨⟨.idiv, size, sourceSize⟩, .unary operand⟩
        (.quotient (machine.dividend size) divisor)

section Instructions

variable {instruction : Instruction LabelRef} {machine : Machine} {labels : LabelTable}
  {sourceSlot slot : Slot} {source destination operand : Operand LabelRef}
  {calculation : Calculation} {first second value : Int}

/-- Operands of an accepted instruction hold in 128 bits what they hold over the integers. -/
theorem exists_read {size : Size} (admitted : slot.Admits (operand.map LabelRef.name))
    (noLabel : slot.label = false) (holds : operand.read size machine labels = .ok value) :
    ∃ number : Int128, (read machine labels operand size).outcome = .ok number ∧
      number.toInt = value := by
  obtain ⟨number, ends, means, -⟩ := (read_agrees admitted noLabel size).exists_ok holds
  exact ⟨number, ends, means⟩

theorem exists_reads {size sourceSize : Size}
    (matched : ((Operands.binary source destination).map LabelRef.name).Match [sourceSlot, slot])
    (noLabel : sourceSlot.label = false ∧ slot.label = false)
    (sourceHolds : source.read sourceSize machine labels = .ok second)
    (holds : destination.read size machine labels = .ok first) :
    ∃ left right : Int128, (read machine labels destination size).outcome = .ok left ∧
      (read machine labels source sourceSize).outcome = .ok right ∧ left.toInt = first ∧
        right.toInt = second := by
  obtain ⟨left, ends, means⟩ := exists_read matched.2.1 noLabel.2 holds
  obtain ⟨right, sourceEnds, sourceMeans⟩ := exists_read matched.1 noLabel.1 sourceHolds
  exact ⟨left, right, ends, sourceEnds, means, sourceMeans⟩

theorem combine_calculates {operation : Size → Int128 → Int128 → Traced Result}
    {left right : Int128} (shape : instruction.operands = .binary source destination)
    (ends : (read machine labels destination instruction.mnemonic.size).outcome = .ok left)
    (sourceEnds : (read machine labels source instruction.mnemonic.size).outcome = .ok right)
    (noted : calculation ∈ (operation instruction.mnemonic.size left right).calculations) :
    calculation ∈ (combine instruction machine labels operation).calculations := by
  have found : instruction.binary = .ok (source, destination) := by rw [Instruction.binary, shape]
  rw [combine, found]
  exact Traced.mem_bind_next rfl (Traced.mem_bind_next ends (Traced.mem_bind_next sourceEnds
    (Traced.mem_bind_first noted)))

theorem compare_calculates {operation : Size → Int128 → Int128 → Traced Result}
    {left right : Int128} (shape : instruction.operands = .binary source destination)
    (ends : (read machine labels destination instruction.mnemonic.size).outcome = .ok left)
    (sourceEnds : (read machine labels source instruction.mnemonic.size).outcome = .ok right)
    (noted : calculation ∈ (operation instruction.mnemonic.size left right).calculations) :
    calculation ∈ (compare instruction machine labels operation).calculations := by
  have found : instruction.binary = .ok (source, destination) := by rw [Instruction.binary, shape]
  rw [compare, found]
  exact Traced.mem_bind_next rfl (Traced.mem_bind_next ends (Traced.mem_bind_next sourceEnds
    (Traced.mem_bind_first noted)))

theorem modify_calculates {operation : Size → Int128 → Traced Result} {number : Int128}
    (shape : instruction.operands = .unary operand)
    (ends : (read machine labels operand instruction.mnemonic.size).outcome = .ok number)
    (noted : calculation ∈ (operation instruction.mnemonic.size number).calculations) :
    calculation ∈ (modify instruction machine labels operation).calculations := by
  have found : instruction.unary = .ok operand := by rw [Instruction.unary, shape]
  rw [modify, found]
  exact Traced.mem_bind_next rfl (Traced.mem_bind_next ends (Traced.mem_bind_first noted))

theorem shift_calculates {operation : Size → Int128 → Nat → Traced Result}
    {amount number : Int128} (shape : instruction.operands = .binary source destination)
    (counts : (read machine labels source .byte).outcome = .ok amount)
    (ends : (read machine labels destination instruction.mnemonic.size).outcome = .ok number)
    (noted : calculation ∈
      (operation instruction.mnemonic.size number (shiftCount amount)).calculations) :
    calculation ∈ (shift instruction machine labels operation).calculations := by
  have found : instruction.binary = .ok (source, destination) := by rw [Instruction.binary, shape]
  rw [shift, found]
  exact Traced.mem_bind_next rfl (Traced.mem_bind_next counts (Traced.mem_bind_next ends
    (Traced.mem_bind_first noted)))

section Operations

variable (size : Size) (left right number : Int128) (amount : Nat)

theorem sumOf_calculates : .sum left.toInt right.toInt ∈ (sumOf size left right).calculations :=
  Traced.mem_bind_first (List.mem_singleton_self _)

theorem differenceOf_calculates :
    .difference left.toInt right.toInt ∈ (differenceOf size left right).calculations :=
  Traced.mem_bind_first (List.mem_singleton_self _)

theorem productOf_calculates :
    .product left.toInt right.toInt ∈ (productOf size left right).calculations :=
  Traced.mem_bind_first (List.mem_singleton_self _)

theorem increment_calculates : .sum number.toInt 1 ∈ (increment size number).calculations :=
  Traced.mem_bind_first (List.mem_singleton.mpr rfl)

theorem decrement_calculates : .sum number.toInt (-1) ∈ (decrement size number).calculations :=
  Traced.mem_bind_first (List.mem_singleton.mpr rfl)

theorem negationOf_calculates : .negation number.toInt ∈ (negationOf size number).calculations :=
  Traced.mem_bind_first (List.mem_singleton_self _)

theorem leftShift_calculates :
    .shiftedLeft number.toInt amount ∈ (leftShift size number amount).calculations :=
  Traced.mem_bind_first (List.mem_singleton_self _)

end Operations

/-- The dividend is put together of its halves, and then divided. -/
theorem divide_calculates {size sourceSize : Size} {number : Int128}
    (ends : (read machine labels operand size).outcome = .ok number) (nonzero : number ≠ 0#128) :
    let noted :=
      (divide ⟨⟨.idiv, size, sourceSize⟩, .unary operand⟩ machine labels).calculations
    .joined (machine.registers.readSigned (Instruction.dividendRegisters size).1 <<< size.bits)
        (machine.registers.read (Instruction.dividendRegisters size).2).toNat ∈ noted ∧
      .quotient (machine.dividend size) number.toInt ∈ noted := by
  have small := lowHalf_lt machine size
  obtain ⟨high, highEnds, means, inside⟩ :=
    (readRegister_agrees machine (Instruction.dividendRegisters size).1).exists_ok rfl
  rw [← means] at inside
  obtain ⟨shifted, shiftEnds, moved⟩ := (shiftLeft_agrees inside size.bits_le).exists_ok rfl
  obtain ⟨dividend, joinEnds, joined⟩ :=
    (join_agrees moved inside size.bits_le small).exists_ok rfl
  have low : (ofWord (machine.registers.read (Instruction.dividendRegisters size).2)).toInt =
      (machine.registers.read (Instruction.dividendRegisters size).2).toNat :=
    Int128.toInt_ofWord _
  have whole : dividend.toInt = machine.dividend size := by
    rw [joined, means, ofWord, BitVec.toNat_setWidth_of_le (by decide), machine.dividend_eq]
  have joins : .joined shifted.toInt (ofWord (machine.registers.read
      (Instruction.dividendRegisters size).2)).toInt ∈ (join shifted (ofWord (machine.registers.read
        (Instruction.dividendRegisters size).2))).calculations := List.mem_singleton_self _
  have divides : .quotient dividend.toInt number.toInt ∈
      (checkedDiv dividend number).calculations := List.mem_singleton_self _
  rw [moved, means, low] at joins
  rw [whole] at divides
  have reached {calculation : Calculation} {rest : Traced Machine}
      (noted : calculation ∈ rest.calculations) :
      calculation ∈ (if number = 0#128 then .fault .divisionByZero else rest).calculations := by
    rwa [if_neg nonzero]
  exact ⟨Traced.mem_bind_next rfl (Traced.mem_bind_next ends (reached
      (Traced.mem_bind_next highEnds (Traced.mem_bind_next shiftEnds (Traced.mem_bind_first joins))))),
    Traced.mem_bind_next rfl (Traced.mem_bind_next ends (reached
      (Traced.mem_bind_next highEnds (Traced.mem_bind_next shiftEnds
        (Traced.mem_bind_next joinEnds (Traced.mem_bind_first divides))))))⟩

end Instructions

/-- Every accepted instruction calculates what it is for. -/
theorem mem_calculations {line : Line} {body : Instruction LabelRef} (accepted : line.Accepted body)
    {machine : Machine} {labels : LabelTable} {calculation : Calculation}
    (calculates : Calculates machine labels body calculation) :
    calculation ∈ calculations line machine labels := by
  have matched := accepted.matched
  rw [calculations, accepted.found]
  dsimp only
  cases calculates with
  | @binary opcode size sourceSize source destination made first second listed holds sourceHolds =>
    cases opcode with
    | add =>
      obtain rfl := Option.some.inj listed
      obtain ⟨left, right, ends, sourceEnds, rfl, rfl⟩ :=
        exists_reads matched ⟨rfl, rfl⟩ sourceHolds holds
      exact combine_calculates rfl ends sourceEnds (sumOf_calculates size left right)
    | sub =>
      obtain rfl := Option.some.inj listed
      obtain ⟨left, right, ends, sourceEnds, rfl, rfl⟩ :=
        exists_reads matched ⟨rfl, rfl⟩ sourceHolds holds
      exact combine_calculates rfl ends sourceEnds (differenceOf_calculates size left right)
    | cmp =>
      obtain rfl := Option.some.inj listed
      obtain ⟨left, right, ends, sourceEnds, rfl, rfl⟩ :=
        exists_reads matched ⟨rfl, rfl⟩ sourceHolds holds
      exact compare_calculates rfl ends sourceEnds (differenceOf_calculates size left right)
    | imul =>
      obtain rfl := Option.some.inj listed
      obtain ⟨left, right, ends, sourceEnds, rfl, rfl⟩ :=
        exists_reads matched ⟨rfl, rfl⟩ sourceHolds holds
      exact combine_calculates rfl ends sourceEnds (productOf_calculates size left right)
    | _ => cases listed
  | @unary opcode size sourceSize operand made value listed holds =>
    cases opcode with
    | inc =>
      obtain rfl := Option.some.inj listed
      obtain ⟨number, ends, rfl⟩ := exists_read matched rfl holds
      exact modify_calculates rfl ends (increment_calculates size number)
    | dec =>
      obtain rfl := Option.some.inj listed
      obtain ⟨number, ends, rfl⟩ := exists_read matched rfl holds
      exact modify_calculates rfl ends (decrement_calculates size number)
    | neg =>
      obtain rfl := Option.some.inj listed
      obtain ⟨number, ends, rfl⟩ := exists_read matched rfl holds
      exact modify_calculates rfl ends (negationOf_calculates size number)
    | _ => cases listed
  | @shift opcode size sourceSize source destination value count listed counts holds =>
    rcases listed with rfl | rfl
    all_goals
      obtain ⟨number, amount, ends, countEnds, rfl, rfl⟩ :=
        exists_reads matched ⟨rfl, rfl⟩ counts holds
      rw [← shiftCount_eq]
      exact shift_calculates rfl countEnds ends (leftShift_calculates size number _)
  | dividend holds nonzero =>
    obtain ⟨number, ends, rfl⟩ := exists_read matched rfl holds
    exact (divide_calculates ends fun zero => nonzero (by rw [zero]; rfl)).1
  | quotient holds nonzero =>
    obtain ⟨number, ends, rfl⟩ := exists_read matched rfl holds
    exact (divide_calculates ends fun zero => nonzero (by rw [zero]; rfl)).2

end AsmLab.FixedWidth
