import AsmLab.Proofs.Exec.Totality
import AsmLab.Proofs.Machine.SizeRange
import AsmLab.Proofs.Source.RoundTrip

/-! The faults of accepted lines. A line that a session accepted faults in the cases listed here and
in no other, and never with an internal error. -/
namespace AsmLab

/-- The dividend as one signed number, its two registers side by side. -/
def Machine.dividend (machine : Machine) (size : Size) : Int :=
  (machine.registers.view (Instruction.dividendRegisters size).1 ++
    machine.registers.view (Instruction.dividendRegisters size).2).toInt

theorem Machine.dividend_eq (machine : Machine) (size : Size) :
    machine.registers.readSigned (Instruction.dividendRegisters size).1 <<< size.bits +
        (machine.registers.read (Instruction.dividendRegisters size).2).toNat =
      machine.dividend size := by
  have lowBits : (Instruction.dividendRegisters size).2.size.bits = size.bits := by cases size <;> rfl
  have highBits : (Instruction.dividendRegisters size).1.size.bits ≠ 0 :=
    (Size.bits_pos _).ne'
  have unsigned : (machine.registers.read (Instruction.dividendRegisters size).2).toNat =
      (machine.registers.view (Instruction.dividendRegisters size).2).toNat := by
    have bound := (machine.registers.view (Instruction.dividendRegisters size).2).isLt
    have room := Nat.pow_le_pow_right Nat.two_pos (lowBits.trans_le size.bits_le)
    rw [RegisterFile.read, BitVec.toNat_setWidth, Nat.mod_eq_of_lt (bound.trans_le room)]
  rw [dividend, BitVec.toInt_append, if_neg (by simpa using highBits), unsigned,
    RegisterFile.readSigned, Int.shiftLeft_eq, Int.mul_comm, ← lowBits]

/-- Whether an instruction looks at its target, given the flags. -/
def Opcode.branches (flags : Flags) : Opcode → Bool
  | .jmp | .call => true
  | .jumpIf condition => condition.holds flags
  | _ => false

namespace Instruction

variable (machine : Machine) (labels : LabelTable) (instruction : Instruction LabelRef)

/-- The cases in which an instruction faults. -/
inductive Faults : FaultCause → Prop where
  | divisionByZero {divisor : Operand LabelRef} (divides : instruction.mnemonic.opcode = .idiv)
      (shape : instruction.operands = .unary divisor)
      (zero : divisor.read instruction.mnemonic.size machine labels = .ok 0) :
      Faults .divisionByZero
  | divisionOverflow {divisor : Operand LabelRef} {value : Int}
      (divides : instruction.mnemonic.opcode = .idiv)
      (shape : instruction.operands = .unary divisor)
      (read : divisor.read instruction.mnemonic.size machine labels = .ok value)
      (nonzero : value ≠ 0)
      (wide : ¬ (-(2 : Int) ^ (instruction.mnemonic.size.bits - 1) ≤
          (machine.dividend instruction.mnemonic.size).tdiv value ∧
        (machine.dividend instruction.mnemonic.size).tdiv value <
          (2 : Int) ^ (instruction.mnemonic.size.bits - 1))) :
      Faults .divisionOverflow
  | unresolvedLabel {target : LabelRef}
      (branches : instruction.mnemonic.opcode.branches machine.flags = true)
      (shape : instruction.operands = .unary (.label target))
      (undefined : labels.line? target.id = none) : Faults (.unresolvedLabel target.name)
  | stackUnderflow (returns : instruction.mnemonic.opcode = .ret) (called : 0 < machine.callDepth)
      (empty : machine.stackBase ≤ machine.stackPointer) : Faults .stackUnderflow
  | invalidReturnAddress (returns : instruction.mnemonic.opcode = .ret)
      (called : 0 < machine.callDepth) (held : machine.stackPointer < machine.stackBase)
      (negative : machine.readMemory machine.stackPointer .quad < 0) :
      Faults (.invalidReturnAddress (machine.readMemory machine.stackPointer .quad))

end Instruction

namespace Instruction

variable {machine : Machine} {labels : LabelTable} {instruction : Instruction LabelRef}
  {cause : FaultCause}

theorem divide_of_zero {divisor : Operand LabelRef} (shape : instruction.operands = .unary divisor)
    (read : divisor.read instruction.mnemonic.size machine labels = .ok 0) :
    instruction.divide machine labels = .error .divisionByZero := by
  simp only [divide, unary, shape, read, bind, Except.bind]
  rfl

theorem divide_of_ne_zero {divisor : Operand LabelRef} {value : Int}
    (shape : instruction.operands = .unary divisor)
    (read : divisor.read instruction.mnemonic.size machine labels = .ok value)
    (nonzero : value ≠ 0) :
    ∃ after, instruction.divide machine labels =
      if instruction.mnemonic.size.fits
        ((machine.dividend instruction.mnemonic.size).tdiv value) then .ok after
      else .error .divisionOverflow := by
  have dividend := machine.dividend_eq instruction.mnemonic.size
  simp only [divide, unary, shape, read, bind, Except.bind, dividend, Alu.divide?, pure, Except.pure,
    if_neg nonzero]
  by_cases fits : instruction.mnemonic.size.fits
    ((machine.dividend instruction.mnemonic.size).tdiv value) = true
  · simp only [if_pos fits]
    exact ⟨_, rfl⟩
  · simp only [if_neg fits]
    exact ⟨machine, rfl⟩

theorem divide_error_iff {divisor : Operand LabelRef} (divides : instruction.mnemonic.opcode = .idiv)
    (shape : instruction.operands = .unary divisor) (readable : divisor.Readable) :
    instruction.divide machine labels = .error cause ↔ instruction.Faults machine labels cause := by
  constructor
  · intro failed
    obtain ⟨value, read⟩ := readable instruction.mnemonic.size machine labels
    by_cases zero : value = 0
    · subst zero
      obtain rfl := Except.error.inj ((divide_of_zero shape read).symm.trans failed)
      exact .divisionByZero divides shape read
    · obtain ⟨after, run⟩ := divide_of_ne_zero shape read zero
      have wide := (Size.fits_iff _ _).not.mp (by
        intro fits
        rw [run, if_pos fits] at failed
        cases failed)
      rw [run, if_neg ((Size.fits_iff _ _).not.mpr wide)] at failed
      obtain rfl := Except.error.inj failed
      exact .divisionOverflow divides shape read zero wide
  · intro faults
    cases faults with
    | divisionByZero _ shape zero => exact divide_of_zero shape zero
    | divisionOverflow _ shape read nonzero wide =>
      obtain ⟨after, run⟩ := divide_of_ne_zero shape read nonzero
      rw [run, if_neg ((Size.fits_iff _ _).not.mpr wide)]
    | unresolvedLabel branches => simp [divides, Opcode.branches] at branches
    | stackUnderflow returns => simp [divides] at returns
    | invalidReturnAddress returns => simp [divides] at returns

theorem target_eq {target : LabelRef} (shape : instruction.operands = .unary (.label target)) :
    instruction.target machine labels =
      (labels.line? target.id).elim (.error (.unresolvedLabel target.name)) .ok := by
  cases defined : labels.line? target.id <;>
    simp [Instruction.target, unary, shape, Operand.read, defined, bind, Except.bind, pure,
      Except.pure]

theorem target_error_iff {target : LabelRef} (shape : instruction.operands = .unary (.label target)) :
    instruction.target machine labels = .error cause ↔
      labels.line? target.id = none ∧ cause = .unresolvedLabel target.name := by
  rw [target_eq shape]
  cases labels.line? target.id <;> simp [eq_comm]

theorem returnLine_error_iff :
    machine.returnLine = .error cause ↔
      machine.stackBase ≤ machine.stackPointer ∧ cause = .stackUnderflow ∨
        machine.stackPointer < machine.stackBase ∧ machine.readMemory machine.stackPointer .quad < 0 ∧
          cause = .invalidReturnAddress (machine.readMemory machine.stackPointer .quad) := by
  unfold Machine.returnLine
  by_cases empty : machine.stackBase ≤ machine.stackPointer
  · simp [empty, BitVec.not_lt.mpr empty, eq_comm]
  · rw [if_neg empty]
    have held := BitVec.not_le.mp empty
    cases address : machine.readMemory machine.stackPointer .quad with
    | ofNat line => simp [empty]
    | negSucc below => simp [empty, held, Int.negSucc_lt_zero, eq_comm]

theorem leave_error_iff (returns : instruction.mnemonic.opcode = .ret) :
    machine.leave = .error cause ↔ instruction.Faults machine labels cause := by
  have run : machine.leave = .error cause ↔
      0 < machine.callDepth ∧ machine.returnLine = .error cause := by
    unfold Machine.leave
    by_cases top : machine.callDepth ≤ 0
    · simp [top, Int.not_lt.mpr top]
    · have called := Int.not_le.mp top
      rw [if_neg top]
      cases machine.returnLine <;> simp [called, bind, Except.bind, pure, Except.pure]
  rw [run, returnLine_error_iff]
  constructor
  · rintro ⟨called, ⟨empty, rfl⟩ | ⟨held, negative, rfl⟩⟩
    · exact .stackUnderflow returns called empty
    · exact .invalidReturnAddress returns called held negative
  · intro faults
    cases faults with
    | divisionByZero divides => simp [returns] at divides
    | divisionOverflow divides => simp [returns] at divides
    | unresolvedLabel branches => simp [returns, Opcode.branches] at branches
    | stackUnderflow _ called empty => exact ⟨called, .inl ⟨empty, rfl⟩⟩
    | invalidReturnAddress _ called held negative => exact ⟨called, .inr ⟨held, negative, rfl⟩⟩

theorem branchIf_error_iff {condition : Bool} :
    instruction.branchIf machine labels condition = .error cause ↔
      condition = true ∧ instruction.target machine labels = .error cause := by
  cases condition with
  | false => simp [branchIf, pure, Except.pure]
  | true =>
    cases found : instruction.target machine labels <;>
      simp [branchIf, found, bind, Except.bind, pure, Except.pure]

theorem enter_error_iff :
    instruction.enter machine labels = .error cause ↔
      instruction.target machine labels = .error cause := by
  cases found : instruction.target machine labels <;>
    simp [enter, found, bind, Except.bind, pure, Except.pure]

/-- An unresolved target is the only fault of an instruction with a target. -/
theorem faults_iff_of_target {target : LabelRef}
    (shape : instruction.operands = .unary (.label target))
    (noDivision : instruction.mnemonic.opcode ≠ .idiv) (noReturn : instruction.mnemonic.opcode ≠ .ret) :
    instruction.Faults machine labels cause ↔
      instruction.mnemonic.opcode.branches machine.flags = true ∧
        instruction.target machine labels = .error cause := by
  rw [target_error_iff shape]
  constructor
  · intro faults
    cases faults with
    | divisionByZero divides => exact absurd divides noDivision
    | divisionOverflow divides => exact absurd divides noDivision
    | unresolvedLabel branches otherShape undefined =>
      cases shape.symm.trans otherShape
      exact ⟨branches, undefined, rfl⟩
    | stackUnderflow returns => exact absurd returns noReturn
    | invalidReturnAddress returns => exact absurd returns noReturn
  · rintro ⟨branches, undefined, rfl⟩
    exact .unresolvedLabel branches shape undefined

theorem Faults.not_isTotal (faults : instruction.Faults machine labels cause) :
    instruction.mnemonic.opcode.isTotal = false := by
  cases faults with
  | divisionByZero divides => rw [divides]; rfl
  | divisionOverflow divides => rw [divides]; rfl
  | unresolvedLabel branches =>
    revert branches
    cases instruction.mnemonic.opcode <;> simp [Opcode.branches, Opcode.isTotal]
  | stackUnderflow returns => rw [returns]; rfl
  | invalidReturnAddress returns => rw [returns]; rfl

/-- An instruction whose operands fit their places faults in the listed cases only. -/
theorem execute_error_iff
    (matched : (instruction.operands.map LabelRef.name).Match instruction.mnemonic.slots) :
    instruction.execute machine labels = .error cause ↔
      instruction.Faults machine labels cause := by
  by_cases total : instruction.mnemonic.opcode.isTotal = true
  · obtain ⟨after, run⟩ := execute_ok machine labels matched total
    rw [run]
    exact ⟨nofun, fun faults => by simp [faults.not_isTotal] at total⟩
  · obtain ⟨⟨opcode, size, sourceSize⟩, operands⟩ := instruction
    cases opcode with
    | idiv =>
      obtain ⟨divisor, rfl, admitted⟩ := matched.exists_unary
      exact divide_error_iff rfl rfl (Operand.readable_of_admits admitted rfl)
    | ret => exact leave_error_iff rfl
    | call =>
      obtain ⟨operand, rfl, admitted⟩ := matched.exists_unary
      obtain ⟨target, rfl⟩ := Operand.exists_of_admits_target admitted
      rw [faults_iff_of_target rfl (by simp) (by simp)]
      exact enter_error_iff.trans (by simp [Opcode.branches])
    | jmp | jumpIf =>
      obtain ⟨operand, rfl, admitted⟩ := matched.exists_unary
      obtain ⟨target, rfl⟩ := Operand.exists_of_admits_target admitted
      rw [faults_iff_of_target rfl (by simp) (by simp)]
      exact branchIf_error_iff
    | _ => exact absurd rfl total

end Instruction

theorem Line.evaluate_error_iff {line : Line} (machine : Machine) (labels : LabelTable)
    (wellFormed : line.WellFormed) (fault : Fault) :
    line.evaluate machine labels = .error fault ↔
      fault.line = line.number ∧ ∃ body, line.instruction? = some body ∧
        body.Faults machine labels fault.cause := by
  obtain ⟨number, statement, comment, breakpoint⟩ := line
  obtain ⟨raised, cause⟩ := fault
  cases statement with
  | blank => simp [evaluate, instruction?]
  | comment => simp [evaluate, instruction?]
  | label _ => simp [evaluate, instruction?]
  | instruction body =>
    have matched : (body.operands.map LabelRef.name).Match body.mnemonic.slots :=
      wellFormed.statement.matched
    have executed : body.execute machine labels = .error cause ↔ body.Faults machine labels cause :=
      Instruction.execute_error_iff matched
    cases run : body.execute machine labels with
    | ok after =>
      rw [run] at executed
      simpa [evaluate, instruction?, run] using fun _ => executed.not.mp (by simp)
    | error found =>
      rw [run] at executed
      simp only [evaluate, instruction?, run, Except.error.injEq, Fault.mk.injEq, Option.some.injEq,
        exists_eq_left', ← executed, eq_comm]

/-- A line that a session accepted, evaluated on any machine with any labels, faults in the listed
cases and in no other, never with an internal error, and succeeds in all other cases. -/
theorem Source.Session.evaluate_accepted {session next : Session} {text : String} {line : Line}
    (accepted : session.parseLine text = (.ok line, next)) (machine : Machine)
    (labels : LabelTable) :
    (∀ fault, line.evaluate machine labels = .error fault ↔
        fault.line = line.number ∧ ∃ body, line.instruction? = some body ∧
          body.Faults machine labels fault.cause) ∧
      (∀ number defect, line.evaluate machine labels ≠ .error ⟨number, .internal defect⟩) ∧
      ((∀ body cause, line.instruction? = some body → ¬ body.Faults machine labels cause) →
        ∃ after, line.evaluate machine labels = .ok after) := by
  have faults := Line.evaluate_error_iff machine labels (parseLine_ok accepted).wellFormed
  refine ⟨faults, ?_, ?_⟩
  · intro number defect internal
    obtain ⟨_, body, _, impossible⟩ := (faults _).mp internal
    cases impossible
  · intro faultless
    cases run : line.evaluate machine labels with
    | ok after => exact ⟨after, rfl⟩
    | error fault =>
      obtain ⟨_, body, same, cause⟩ := (faults fault).mp run
      exact absurd cause (faultless body fault.cause same)

/-- A division on the machine that starts with zeros everywhere. -/
theorem Source.Session.evaluate_accepted_division :
    let body : Instruction LabelRef := ⟨.uniform .idiv .long, .unary (.register (.low .rcx .long))⟩
    empty.parseLine "idivl %ecx" = (.ok ⟨0, .instruction body, none, false⟩, ⟨1, .empty⟩) ∧
      Line.evaluate ⟨0, .instruction body, none, false⟩ (.initial Machine.defaultStackBase) .empty =
        .error ⟨0, .divisionByZero⟩ := by
  intro body
  have accepted : empty.parseLine "idivl %ecx" =
      (.ok ⟨0, .instruction body, none, false⟩, ⟨1, .empty⟩) := by decide +kernel
  have faults := (evaluate_accepted accepted (.initial Machine.defaultStackBase) .empty).1
  exact ⟨accepted, (faults _).mpr ⟨rfl, body, rfl, .divisionByZero rfl rfl (by decide +kernel)⟩⟩

end AsmLab
