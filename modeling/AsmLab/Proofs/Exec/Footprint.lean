import AsmLab.Proofs.Exec.FaultCases
import AsmLab.Proofs.Exec.LocalRun

/-! The registers that a line is said to use are all that it reads and all that it changes. -/
namespace AsmLab

namespace Instruction

/-- What a division does with its quotient and remainder, if the quotient is not too wide. -/
def settle (size : Size) : Option (Int × Int) → Machine → Except FaultCause Machine
  | none, _ => .error .divisionOverflow
  | some (quotient, remainder), machine =>
    .ok ((machine.setRegister (dividendRegisters size).2 quotient).setRegister
      (dividendRegisters size).1 remainder).advance

variable {instruction : Instruction LabelRef}

theorem unary_ok {operand : Operand LabelRef} (found : instruction.unary = .ok operand) :
    instruction.operands = .unary operand := by
  unfold unary at found
  split at found
  · rename_i shape
    rw [shape, Except.ok.inj found]
  · cases found

theorem binary_ok {source destination : Operand LabelRef}
    (found : instruction.binary = .ok (source, destination)) :
    instruction.operands = .binary source destination := by
  unfold binary at found
  split at found
  · rename_i shape
    obtain ⟨rfl, rfl⟩ := Prod.mk.inj (Except.ok.inj found)
    exact shape
  · cases found

theorem divide_eq (machine : Machine) (labels : LabelTable) :
    instruction.divide machine labels =
      instruction.unary >>= fun operand =>
        operand.read instruction.mnemonic.size machine labels >>= fun divisor =>
          if divisor = 0 then .error .divisionByZero
          else settle instruction.mnemonic.size (Alu.divide? instruction.mnemonic.size
            (machine.dividend instruction.mnemonic.size) divisor) machine := by
  simp only [divide, ← machine.dividend_eq]
  refine congrArg (instruction.unary >>= ·) (funext fun operand => ?_)
  refine congrArg (operand.read _ machine labels >>= ·) (funext fun divisor => ?_)
  by_cases zero : divisor = 0
  · simp only [if_pos zero]
    rfl
  · rw [if_neg zero, if_neg zero]
    generalize Alu.divide? _ _ divisor = result
    cases result <;> rfl

variable {registers : List Gpr}

theorem settle_local {size : Size} (result : Option (Int × Int))
    (high : (dividendRegisters size).1.parent ∈ registers)
    (low : (dividendRegisters size).2.parent ∈ registers) :
    LocalRun registers (settle size result) := by
  cases result with
  | none => exact .failing _
  | some result =>
    exact .of_change (.comp .advance (.comp (.setRegister high _) (.setRegister low _)))

variable (labels : LabelTable)
  (inside : ∀ operand ∈ instruction.operands.toList, ∀ register ∈ operand.registers,
    register ∈ registers)
include inside

theorem unary_inside {operand : Operand LabelRef} (found : instruction.unary = .ok operand) :
    ∀ register ∈ operand.registers, register ∈ registers :=
  inside operand (by simp [unary_ok found, Operands.toList])

theorem binary_inside {source destination : Operand LabelRef}
    (found : instruction.binary = .ok (source, destination)) :
    (∀ register ∈ source.registers, register ∈ registers) ∧
      ∀ register ∈ destination.registers, register ∈ registers :=
  ⟨inside source (by simp [binary_ok found, Operands.toList]),
    inside destination (by simp [binary_ok found, Operands.toList])⟩

theorem combine_local (operation : Size → Int → Int → Alu.Result) :
    LocalRun registers (instruction.combine · labels operation) := by
  refine .of_read (fun _ => rfl) fun {_ places} found => ?_
  obtain ⟨insideSource, insideDestination⟩ := binary_inside inside found
  refine .of_read (Operand.read_congr insideDestination _ labels) fun _ => ?_
  refine .of_read (Operand.read_congr insideSource _ labels) fun _ => ?_
  exact (Operand.write_local insideDestination _ _).seq (.of_change (.complete _))

theorem compare_local (operation : Size → Int → Int → Alu.Result) :
    LocalRun registers (instruction.compare · labels operation) := by
  refine .of_read (fun _ => rfl) fun {_ places} found => ?_
  obtain ⟨insideSource, insideDestination⟩ := binary_inside inside found
  refine .of_read (Operand.read_congr insideDestination _ labels) fun _ => ?_
  refine .of_read (Operand.read_congr insideSource _ labels) fun _ => ?_
  exact .of_change (.complete _)

theorem modify_local (operation : Size → Int → Alu.Result) :
    LocalRun registers (instruction.modify · labels operation) := by
  refine .of_read (fun _ => rfl) fun found => ?_
  have insideOperand := unary_inside inside found
  refine .of_read (Operand.read_congr insideOperand _ labels) fun _ => ?_
  exact (Operand.write_local insideOperand _ _).seq (.of_change (.complete _))

theorem shift_local (operation : Size → Int → Nat → Alu.Result) :
    LocalRun registers (instruction.shift · labels operation) := by
  refine .of_read (fun _ => rfl) fun {_ places} found => ?_
  obtain ⟨insideSource, insideDestination⟩ := binary_inside inside found
  refine .of_read (Operand.read_congr insideSource _ labels) fun _ => ?_
  refine .of_read (Operand.read_congr insideDestination _ labels) fun _ => ?_
  exact (Operand.write_local insideDestination _ _).seq (.of_change (.complete _))

theorem move_local (width : Size) (convert : Int → Int) :
    LocalRun registers (instruction.move · labels width convert) := by
  refine .of_read (fun _ => rfl) fun {_ places} found => ?_
  obtain ⟨insideSource, insideDestination⟩ := binary_inside inside found
  refine .of_read (Operand.read_congr insideSource _ labels) fun _ => ?_
  exact (Operand.write_local insideDestination _ _).seq (.of_change .advance)

theorem loadAddress_local : LocalRun registers instruction.loadAddress := by
  refine .of_read (fun _ => rfl) fun {_ places} found => ?_
  obtain ⟨source, destination⟩ := places
  obtain ⟨insideSource, insideDestination⟩ := binary_inside inside found
  cases source with
  | immediate _ | register _ | label _ => exact .failing _
  | memory reference =>
    have stores (address : Address) :=
      (Operand.write_local insideDestination instruction.mnemonic.size
        (instruction.mnemonic.size.truncate address.toNat)).seq (.of_change .advance)
    exact .of_value _ (MemoryRef.address_congr insideSource) stores

theorem divide_local (high : (dividendRegisters instruction.mnemonic.size).1.parent ∈ registers)
    (low : (dividendRegisters instruction.mnemonic.size).2.parent ∈ registers) :
    LocalRun registers (instruction.divide · labels) := by
  simp only [divide_eq]
  refine .of_read (fun _ => rfl) fun found => ?_
  refine .of_read (Operand.read_congr (unary_inside inside found) _ labels) fun {_ divisor} _ => ?_
  refine .of_branch (fun _ => Iff.rfl) (.failing _) ?_
  refine .of_value (fun machine => Alu.divide? instruction.mnemonic.size
    (machine.dividend instruction.mnemonic.size) divisor) ?_ (settle_local · high low)
  intro first second agree
  simp only [Machine.dividend, agree.view high, agree.view low]

theorem pushOperand_local (stack : Gpr.rsp ∈ registers) :
    LocalRun registers (instruction.pushOperand · labels) := by
  refine .of_read (fun _ => rfl) fun found => ?_
  refine .of_read (Operand.read_congr (unary_inside inside found) _ labels) fun _ => ?_
  exact .of_change (.comp .advance (.push stack _))

theorem popOperand_local (stack : Gpr.rsp ∈ registers) :
    LocalRun registers instruction.popOperand := by
  refine .of_read (fun _ => rfl) fun found => ?_
  have stores (value : Int) := (Operand.write_local (unary_inside inside found) .quad value).seq
    (.of_change .advance)
  refine .of_value (fun machine => machine.readMemory machine.stackPointer .quad) ?_ fun value =>
    (LocalRun.of_change (.raise stack)).seq (stores value)
  intro first second agree
  simp only [agree.stackPointer stack, agree.readMemory]

theorem setIf_local (condition : Bool) : LocalRun registers (instruction.setIf · condition) := by
  refine .of_read (fun _ => rfl) fun found => ?_
  exact (Operand.write_local (unary_inside inside found) _ _).seq (.of_change .advance)

theorem target_congr {first second : Machine} (agree : first.AgreeOn registers second) :
    instruction.target first labels = instruction.target second labels := by
  unfold target
  cases found : instruction.unary with
  | error cause => rfl
  | ok operand =>
    have same := operand.read_congr (unary_inside inside found) .quad labels agree
    simp only [bind, Except.bind, same]

theorem branchIf_local (condition : Bool) :
    LocalRun registers (instruction.branchIf · labels condition) := by
  cases condition with
  | false => exact .of_change .advance
  | true =>
    exact .of_read (target_congr labels inside) fun {_ line} _ => .of_change (.jump line)

theorem enter_local (stack : Gpr.rsp ∈ registers) :
    LocalRun registers (instruction.enter · labels) := by
  refine .of_read (target_congr labels inside) fun {_ line} _ => ?_
  have pushes : LocalChange registers fun machine => machine.push (machine.rip + 1) :=
    .of_value (fun machine => (machine.rip : Int) + 1)
      (fun agree => congrArg (fun line : Nat => (line : Int) + 1) agree.rip) (.push stack)
  exact .of_change (.comp (.jump line) (.comp (.adjustDepth 1) pushes))

omit inside in
theorem leave_local (stack : Gpr.rsp ∈ registers) : LocalRun registers Machine.leave := by
  unfold Machine.leave
  refine .of_branch (fun agree => by rw [agree.callDepth]) (.of_change (.adjustDepth (-1))) ?_
  refine .of_read ?_ fun {_ line} _ => ?_
  · intro first second agree
    unfold Machine.returnLine
    rw [agree.stackBase, agree.stackPointer stack, agree.readMemory]
  · have returns := (LocalChange.adjustDepth (-1)).comp (LocalChange.raise stack)
    exact .of_change ((LocalChange.jump line).comp returns)

omit inside in
theorem mem_usedRegisters (instruction : Instruction LabelRef) (register : Gpr) :
    register ∈ instruction.usedRegisters ↔
      (∃ operand ∈ instruction.operands.toList, register ∈ operand.registers) ∨
        register ∈ implicitRegisters instruction.mnemonic := by
  have listed : register ∈ Gpr.all := by cases register <;> decide
  simp [usedRegisters, listed]

omit inside in
theorem dividend_implicit (size sourceSize : Size) :
    (dividendRegisters size).1.parent ∈ implicitRegisters ⟨.idiv, size, sourceSize⟩ ∧
      (dividendRegisters size).2.parent ∈ implicitRegisters ⟨.idiv, size, sourceSize⟩ := by
  cases size <;> exact ⟨by simp [dividendRegisters, implicitRegisters, Register.parent,
    HighByte.parent], by simp [dividendRegisters, implicitRegisters, Register.parent]⟩

omit inside in
/-- What an instruction reads and changes of the registers is what it is said to use. -/
theorem execute_local (instruction : Instruction LabelRef) :
    LocalRun instruction.usedRegisters (instruction.execute · labels) := by
  have inside : ∀ operand ∈ instruction.operands.toList, ∀ register ∈ operand.registers,
      register ∈ instruction.usedRegisters :=
    fun operand listed register used =>
      (mem_usedRegisters instruction register).mpr (.inl ⟨operand, listed, used⟩)
  have implicit (register : Gpr) (listed : register ∈ implicitRegisters instruction.mnemonic) :
      register ∈ instruction.usedRegisters :=
    (mem_usedRegisters instruction register).mpr (.inr listed)
  revert inside implicit
  generalize instruction.usedRegisters = registers
  intro inside implicit
  obtain ⟨⟨opcode, size, sourceSize⟩, operands⟩ := instruction
  cases opcode with
  | add | sub | imul | or | and | xor => exact combine_local labels inside _
  | cmp | test => exact compare_local labels inside _
  | inc | dec | neg | not => exact modify_local labels inside _
  | sal | shl | sar | shr => exact shift_local labels inside _
  | mov | movz | movs => exact move_local labels inside _ _
  | lea => exact loadAddress_local inside
  | idiv =>
    have halves := dividend_implicit size sourceSize
    exact divide_local labels inside (implicit _ halves.1) (implicit _ halves.2)
  | push => exact pushOperand_local labels inside (implicit _ (by simp [implicitRegisters]))
  | pop => exact popOperand_local inside (implicit _ (by simp [implicitRegisters]))
  | clt =>
    have accumulator : Gpr.rax ∈ registers := implicit _ (by simp [implicitRegisters])
    exact .of_value (·.registers.readSigned (.low .rax .long))
      (fun agree => congrArg BitVec.toInt (agree.view accumulator))
      fun value => .of_change (.comp .advance (.setRegister accumulator value))
  | set condition =>
    exact .of_value (condition.holds ·.flags) (fun agree => by rw [agree.flags])
      (setIf_local inside)
  | jumpIf condition =>
    exact .of_value (condition.holds ·.flags) (fun agree => by rw [agree.flags])
      (branchIf_local labels inside)
  | jmp => exact branchIf_local labels inside true
  | call => exact enter_local labels inside (implicit _ (by simp [implicitRegisters]))
  | ret => exact leave_local (implicit _ (by simp [implicitRegisters]))

end Instruction

theorem Line.evaluate_some {line : Line} {body : Instruction LabelRef}
    (found : line.instruction? = some body) (machine : Machine) (labels : LabelTable) :
    line.evaluate machine labels =
      (body.execute machine labels >>= fun next => .ok next.countStep).mapError
        (Fault.mk line.number) := by
  simp only [evaluate, found]
  cases body.execute machine labels <;> rfl

theorem Line.evaluate_local (line : Line) (labels : LabelTable) :
    LocalRun line.usedRegisters (line.evaluate · labels) := by
  unfold usedRegisters
  cases found : line.instruction? with
  | none =>
    simp only [evaluate, found]
    exact .of_change (.comp .countStep .advance)
  | some body =>
    simp only [evaluate_some found]
    exact ((body.execute_local labels).seq (.of_change .countStep)).mapError (Fault.mk line.number)

/-- A line changes no register that it is not said to use. It does not read one either: machines
that agree on everything else fault alike or go on to machines that agree so again. -/
theorem Line.evaluate_footprint (line : Line) (labels : LabelTable) :
    (∀ machine after, line.evaluate machine labels = .ok after →
        ∀ register, register ∉ line.usedRegisters →
          after.registers.get register = machine.registers.get register) ∧
      ∀ first second : Machine, first.AgreeOn line.usedRegisters second →
        (∃ fault, line.evaluate first labels = .error fault ∧
            line.evaluate second labels = .error fault) ∨
          ∃ left right, line.evaluate first labels = .ok left ∧
            line.evaluate second labels = .ok right ∧ left.AgreeOn line.usedRegisters right := by
  have confined := line.evaluate_local labels
  refine ⟨fun machine after evaluates => confined.keeps evaluates, fun first second agree => ?_⟩
  have both := confined.alike agree
  generalize line.evaluate first labels = firstOutcome at both
  generalize line.evaluate second labels = secondOutcome at both
  cases both with
  | failed fault => exact .inl ⟨fault, rfl, rfl⟩
  | succeeded same => exact .inr ⟨_, _, rfl, rfl, same⟩

/-- A division of one byte by another, on machines that differ in the register that only wider
divisions use. -/
theorem Line.evaluate_footprint_division :
    let body : Instruction LabelRef := ⟨.uniform .idiv .byte, .unary (.register (.low .rcx .byte))⟩
    let line : Line := ⟨0, .instruction body, none, false⟩
    let first := (Machine.initial Machine.defaultStackBase).setRegister (.low .rcx .quad) 2
    let second := first.setRegister (.low .rdx .quad) 99
    first.AgreeOn line.usedRegisters second ∧
      ∃ left right, line.evaluate first .empty = .ok left ∧
        line.evaluate second .empty = .ok right ∧ left.AgreeOn line.usedRegisters right ∧
          left.registers.get .rdx = 0 ∧ right.registers.get .rdx = 99 := by
  intro body line first second
  have agree : first.AgreeOn line.usedRegisters second :=
    ⟨by decide +kernel, rfl, rfl, rfl, rfl, rfl, rfl⟩
  have outside : Gpr.rdx ∉ line.usedRegisters := by decide +kernel
  obtain ⟨keeps, alike⟩ := line.evaluate_footprint .empty
  rcases alike first second agree with
    ⟨fault, failed, _⟩ | ⟨left, right, ranLeft, ranRight, same⟩
  · have succeeds : (line.evaluate first .empty).isOk = true := by decide +kernel
    rw [failed] at succeeds
    cases succeeds
  · have leftZero := keeps first left ranLeft .rdx outside
    have rightKept := keeps second right ranRight .rdx outside
    exact ⟨agree, left, right, ranLeft, ranRight, same, leftZero.trans (by decide +kernel),
      rightKept.trans (by decide +kernel)⟩

end AsmLab
