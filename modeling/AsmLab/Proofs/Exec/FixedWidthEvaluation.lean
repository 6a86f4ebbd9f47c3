import AsmLab.Proofs.Exec.FixedWidthAgreement

/-! Every line evaluates in numbers of 128 bits as it does over the integers. -/
namespace AsmLab

theorem RegisterFile.toNat_read (file : RegisterFile) (register : Register) :
    (file.read register).toNat = (file.view register).toNat :=
  BitVec.toNat_setWidth_of_le register.size.bits_le

namespace FixedWidth

open Traced (Agrees)
open Int128 (zeroExtend fits ofWord)

/-- A number of at most 64 bits, as every operand but a label is. -/
structure Holds (value : Int128) (exact : Int) : Prop where
  means : value.toInt = exact
  inside : exact ∈ Size.quad.range

section Access

variable {machine : Machine} {labels : LabelTable} {operand : Operand LabelRef} {slot : Slot}

/-- Numbers beyond 128 bits may be cut down to these first. -/
theorem truncate_ofInt_agrees (exact : Int) (size : Size) :
    (truncate (BitVec.ofInt 128 exact) size).Agrees Holds (.ok (size.truncate exact)) := by
  have divides : size.modulus ∣ 2 ^ 128 := Int128.modulus_dvd size
  have same : size.truncate (BitVec.ofInt 128 exact).toInt = size.truncate exact := by
    rw [BitVec.toInt_ofInt, Size.truncate, Int.bmod_bmod_of_dvd divides, Size.truncate]
  have cut := truncate_agrees (BitVec.ofInt 128 exact) size
  rw [same] at cut
  refine cut.imp fun value exact named means => ⟨means, ?_⟩
  rw [← Except.ok.inj named]
  exact truncate_mem_range size _

theorem readRegister_agrees (machine : Machine) (register : Register) :
    (readRegister machine register).Agrees Holds (.ok (machine.registers.readSigned register)) := by
  have word : ofWord (machine.registers.read register) =
      BitVec.ofInt 128 (machine.registers.view register).toNat := by
    rw [← machine.registers.toNat_read, BitVec.ofInt_natCast, BitVec.ofNat_toNat, ofWord]
  have signed : register.size.truncate (machine.registers.view register).toNat =
      machine.registers.readSigned register := by
    rw [Size.truncate_eq, BitVec.ofInt_natCast, BitVec.ofNat_toNat, BitVec.setWidth_eq]
    rfl
  rw [readRegister, word, ← signed]
  exact truncate_ofInt_agrees _ _

theorem readMemory_agrees (machine : Machine) (address : Address) (size : Size) :
    (readMemory machine address size).Agrees Holds (.ok (machine.readMemory address size)) := by
  rw [readMemory, ← BitVec.ofInt_natCast]
  exact truncate_ofInt_agrees _ _

theorem read_agrees (admitted : slot.Admits (operand.map LabelRef.name))
    (noLabel : slot.label = false) (size : Size) :
    (read machine labels operand size).Agrees Holds (operand.read size machine labels) := by
  cases operand with
  | immediate constant => exact truncate_ofInt_agrees _ _
  | register register => exact readRegister_agrees machine register
  | memory reference => exact readMemory_agrees machine _ size
  | label _ => simp [admitted.1] at noLabel

theorem setRegister_eq (machine : Machine) (register : Register) (value : Int128) :
    setRegister machine register value = machine.setRegister register value.toInt := by
  have bits : value.word.setWidth register.size.bits =
      BitVec.ofInt register.size.bits value.toInt := by
    rw [ofInt_toInt, Int128.word, BitVec.setWidth_setWidth_of_le _ register.size.bits_le]
  rw [setRegister, bits]
  rfl

theorem store_eq (machine : Machine) (address : Address) (size : Size) (value : Int128) :
    store machine address size value = machine.store address size value.toInt := by
  have word : (value.word.toNat : Int) = Size.quad.zeroExtend value.toInt := by
    rw [Size.zeroExtend, Int128.toInt_emod, Int128.word, BitVec.toNat_setWidth]
    rfl
  have bytes : littleEndian size.bytes value.word.toNat =
      littleEndian size.bytes (size.zeroExtend value.toInt).toNat := by
    apply List.ext_getElem?
    intro index
    by_cases inside : index < size.bytes
    · have reached : index < Size.quad.bytes := inside.trans_le (by cases size <;> decide)
      rw [Size.getElem?_stored _ inside, getElem?_littleEndian _ inside, word,
        Size.byteOf_zeroExtend _ reached]
    · rw [List.getElem?_eq_none (by rw [length_littleEndian]; omega),
        List.getElem?_eq_none (by rw [length_littleEndian]; omega)]
  rw [store, bytes]
  rfl

theorem setStackPointer_eq (machine : Machine) (address : Address) :
    setStackPointer machine address = machine.setStackPointer address := by
  have whole : splice (machine.registers.get .rsp) 0 address = address := by
    apply BitVec.eq_of_getLsbD_eq
    intro index inside
    rw [getLsbD_splice _ _ _ _ inside, if_pos (by omega), Nat.sub_zero]
  have bits : (ofWord address).word.setWidth Gpr.rsp.full.size.bits = address := by
    rw [Int128.word_ofWord]
    exact BitVec.setWidth_eq address
  have written : machine.registers.setView Gpr.rsp.full address =
      machine.registers.set .rsp address := congrArg (machine.registers.set .rsp) whole
  rw [setStackPointer, setRegister, bits, written]
  rfl

theorem push_eq (machine : Machine) (value : Int128) :
    push machine value = machine.push value.toInt := by
  rw [push, setStackPointer_eq, store_eq]
  rfl

theorem write_agrees (machine : Machine) (operand : Operand LabelRef) (size : Size)
    (value : Int128) :
    (write machine operand size value).Agrees Eq (operand.write size value.toInt machine) := by
  cases operand with
  | immediate constant => exact .fault _
  | register register => exact .pure (setRegister_eq machine register value)
  | memory reference => exact .pure (store_eq machine _ size value)
  | label reference => exact .fault _

end Access

section Instructions

variable {instruction : Instruction LabelRef} {machine : Machine} {labels : LabelTable}
  {sourceSlot slot : Slot}

theorem binary_agrees
    (matched : (instruction.operands.map LabelRef.name).Match [sourceSlot, slot]) :
    (Traced.lift instruction.binary).Agrees
      (fun operands exact => operands = exact ∧ sourceSlot.Admits (exact.1.map LabelRef.name) ∧
        slot.Admits (exact.2.map LabelRef.name)) instruction.binary := by
  obtain ⟨source, destination, shape, admittedSource, admitted⟩ := matched.exists_binary
  rw [Instruction.binary, shape]
  exact ⟨.ok ⟨rfl, admittedSource, admitted⟩, List.forall_mem_nil _⟩

theorem unary_agrees (matched : (instruction.operands.map LabelRef.name).Match [slot]) :
    (Traced.lift instruction.unary).Agrees
      (fun operand exact => operand = exact ∧ slot.Admits (exact.map LabelRef.name))
      instruction.unary := by
  obtain ⟨operand, shape, admitted⟩ := matched.exists_unary
  rw [Instruction.unary, shape]
  exact ⟨.ok ⟨rfl, admitted⟩, List.forall_mem_nil _⟩

/-- The last step of an instruction with a destination. -/
theorem finish_agrees {operand : Operand LabelRef} {size : Size} {value : Int128} {exact : Int}
    (means : value.toInt = exact) {goOn wideGoOn : Machine → Machine}
    (same : ∀ stored, wideGoOn stored = goOn stored) :
    Agrees Eq (do return wideGoOn (← write machine operand size value))
      (do return goOn (← operand.write size exact machine)) := by
  rw [← means]
  refine (write_agrees machine operand size value).bind fun stored _ wrote => ?_
  subst wrote
  exact .pure (same stored)

theorem combine_agrees {wide : Size → Int128 → Int128 → Traced Result}
    {operation : Size → Int → Int → Alu.Result} (noLabel : sourceSlot.label = false ∧ slot.label = false)
    (matched : (instruction.operands.map LabelRef.name).Match [sourceSlot, slot])
    (agrees : ∀ (first second : Int128), first.toInt ∈ Size.quad.range →
      second.toInt ∈ Size.quad.range →
        (wide instruction.mnemonic.size first second).Agrees Result.Stands
          (.ok (operation instruction.mnemonic.size first.toInt second.toInt))) :
    (combine instruction machine labels wide).Agrees Eq
      (instruction.combine machine labels operation) := by
  refine (binary_agrees matched).bind fun ⟨source, destination⟩ _ found => ?_
  obtain ⟨rfl, admittedSource, admitted⟩ := found
  refine (read_agrees admitted noLabel.2 _).bind fun first _ holds => ?_
  obtain ⟨rfl, firstInside⟩ := holds
  refine (read_agrees admittedSource noLabel.1 _).bind fun second _ holds => ?_
  obtain ⟨rfl, secondInside⟩ := holds
  refine (agrees first second firstInside secondInside).step fun result stands => ?_
  exact finish_agrees stands.value fun stored => by rw [stands.flags]

theorem compare_agrees {wide : Size → Int128 → Int128 → Traced Result}
    {operation : Size → Int → Int → Alu.Result} (noLabel : sourceSlot.label = false ∧ slot.label = false)
    (matched : (instruction.operands.map LabelRef.name).Match [sourceSlot, slot])
    (agrees : ∀ (first second : Int128), first.toInt ∈ Size.quad.range →
      second.toInt ∈ Size.quad.range →
        (wide instruction.mnemonic.size first second).Agrees Result.Stands
          (.ok (operation instruction.mnemonic.size first.toInt second.toInt))) :
    (compare instruction machine labels wide).Agrees Eq
      (instruction.compare machine labels operation) := by
  refine (binary_agrees matched).bind fun ⟨source, destination⟩ _ found => ?_
  obtain ⟨rfl, admittedSource, admitted⟩ := found
  refine (read_agrees admitted noLabel.2 _).bind fun first _ holds => ?_
  obtain ⟨rfl, firstInside⟩ := holds
  refine (read_agrees admittedSource noLabel.1 _).bind fun second _ holds => ?_
  obtain ⟨rfl, secondInside⟩ := holds
  refine (agrees first second firstInside secondInside).step fun result stands => .pure ?_
  rw [stands.flags]

theorem modify_agrees {wide : Size → Int128 → Traced Result}
    {operation : Size → Int → Alu.Result} (noLabel : slot.label = false)
    (matched : (instruction.operands.map LabelRef.name).Match [slot])
    (agrees : ∀ value : Int128, value.toInt ∈ Size.quad.range →
      (wide instruction.mnemonic.size value).Agrees Result.Stands
        (.ok (operation instruction.mnemonic.size value.toInt))) :
    (modify instruction machine labels wide).Agrees Eq
      (instruction.modify machine labels operation) := by
  refine (unary_agrees matched).bind fun destination _ found => ?_
  obtain ⟨rfl, admitted⟩ := found
  refine (read_agrees admitted noLabel _).bind fun value _ holds => ?_
  obtain ⟨rfl, inside⟩ := holds
  refine (agrees value inside).step fun result stands => ?_
  exact finish_agrees stands.value fun stored => by rw [stands.flags]

theorem shift_agrees {wide : Size → Int128 → Nat → Traced Result}
    {operation : Size → Int → Nat → Alu.Result} (noLabel : sourceSlot.label = false ∧ slot.label = false)
    (matched : (instruction.operands.map LabelRef.name).Match [sourceSlot, slot])
    (agrees : ∀ (value : Int128) (count : Nat), value.toInt ∈ Size.quad.range → count ≤ 63 →
      (wide instruction.mnemonic.size value count).Agrees Result.Stands
        (.ok (operation instruction.mnemonic.size value.toInt count))) :
    (shift instruction machine labels wide).Agrees Eq
      (instruction.shift machine labels operation) := by
  refine (binary_agrees matched).bind fun ⟨source, destination⟩ _ found => ?_
  obtain ⟨rfl, admittedSource, admitted⟩ := found
  refine (read_agrees admittedSource noLabel.1 _).bind fun amount _ holds => ?_
  obtain ⟨rfl, _⟩ := holds
  refine (read_agrees admitted noLabel.2 _).bind fun value _ holds => ?_
  obtain ⟨rfl, inside⟩ := holds
  have few : shiftCount amount ≤ 63 := by
    rw [shiftCount_eq]
    exact Nat.le_of_lt_succ (Nat.mod_lt _ (by decide))
  rw [← shiftCount_eq]
  refine (agrees value _ inside few).step fun result stands => ?_
  exact finish_agrees stands.value fun stored => by rw [stands.flags]

theorem move_agrees {width : Size} {convert : Int128 → Int128} {exactly : Int → Int}
    (noLabel : sourceSlot.label = false)
    (matched : (instruction.operands.map LabelRef.name).Match [sourceSlot, slot])
    (same : ∀ value : Int128, (convert value).toInt = exactly value.toInt) :
    (move instruction machine labels width convert).Agrees Eq
      (instruction.move machine labels width exactly) := by
  refine (binary_agrees matched).bind fun ⟨source, destination⟩ _ found => ?_
  obtain ⟨rfl, admittedSource, _⟩ := found
  refine (read_agrees admittedSource noLabel _).bind fun value _ holds => ?_
  obtain ⟨rfl, _⟩ := holds
  exact finish_agrees (same value) fun _ => rfl

theorem loadAddress_agrees
    (matched : (instruction.operands.map LabelRef.name).Match [sourceSlot, slot]) :
    (loadAddress instruction machine).Agrees Eq (instruction.loadAddress machine) := by
  refine (binary_agrees matched).bind fun ⟨source, destination⟩ _ found => ?_
  obtain ⟨rfl, _, _⟩ := found
  cases source with
  | immediate _ | register _ | label _ => exact .fault _
  | memory reference =>
    refine (truncate_agrees _ _).step fun address means => ?_
    rw [Int128.toInt_ofWord] at means
    exact finish_agrees means fun _ => rfl

theorem pushOperand_agrees (noLabel : slot.label = false)
    (matched : (instruction.operands.map LabelRef.name).Match [slot]) :
    (pushOperand instruction machine labels).Agrees Eq (instruction.pushOperand machine labels) := by
  refine (unary_agrees matched).bind fun operand _ found => ?_
  obtain ⟨rfl, admitted⟩ := found
  refine (read_agrees admitted noLabel _).bind fun value _ holds => .pure ?_
  rw [push_eq, holds.means]

theorem popOperand_agrees (matched : (instruction.operands.map LabelRef.name).Match [slot]) :
    (popOperand instruction machine).Agrees Eq (instruction.popOperand machine) := by
  refine (unary_agrees matched).bind fun destination _ found => ?_
  obtain ⟨rfl, _⟩ := found
  refine (readMemory_agrees machine machine.stackPointer .quad).step fun value holds => ?_
  simp only [setStackPointer_eq]
  exact finish_agrees holds.means fun _ => rfl

theorem setIf_agrees {condition : Bool}
    (matched : (instruction.operands.map LabelRef.name).Match [slot]) :
    (setIf instruction machine condition).Agrees Eq (instruction.setIf machine condition) := by
  refine (unary_agrees matched).bind fun destination _ found => ?_
  obtain ⟨rfl, _⟩ := found
  have means : (if condition then 1#128 else 0#128).toInt = condition.toInt := by
    cases condition <;> rfl
  exact finish_agrees means fun _ => rfl

theorem toInt_ofNat_of_word {number : Nat} (small : number < 2 ^ 64) :
    (BitVec.ofNat 128 number).toInt = number := by
  rw [← BitVec.ofInt_natCast]
  exact Int128.toInt_ofInt (by constructor <;> omega)

theorem target_agrees (words : ∀ id line, labels.line? id = some line → line < 2 ^ 64)
    (matched : (instruction.operands.map LabelRef.name).Match [.target]) :
    (target instruction machine labels).Agrees Eq (instruction.target machine labels) := by
  refine (unary_agrees matched).bind fun operand _ found => ?_
  obtain ⟨rfl, admitted⟩ := found
  obtain ⟨reference, rfl⟩ := Operand.exists_of_admits_target admitted
  rw [read, Operand.read]
  cases found : labels.line? reference.id with
  | none => exact .fails (.fault _)
  | some line =>
    have small := words _ _ found
    have number : Means (BitVec.ofNat 128 line) line := toInt_ofNat_of_word small
    refine (Agrees.pure number).step fun value means => ?_
    rw [Int128.word?_of_natCast means small]
    exact .pure rfl

theorem branchIf_agrees {condition : Bool}
    (words : ∀ id line, labels.line? id = some line → line < 2 ^ 64)
    (matched : (instruction.operands.map LabelRef.name).Match [.target]) :
    (branchIf instruction machine labels condition).Agrees Eq
      (instruction.branchIf machine labels condition) := by
  cases condition with
  | false => exact .pure rfl
  | true =>
    refine (target_agrees words matched).bind fun line _ same => ?_
    exact .pure (by rw [same])

theorem enter_agrees (counter : machine.rip < 2 ^ 64)
    (words : ∀ id line, labels.line? id = some line → line < 2 ^ 64)
    (matched : (instruction.operands.map LabelRef.name).Match [.target]) :
    (enter instruction machine labels).Agrees Eq (instruction.enter machine labels) := by
  refine (target_agrees words matched).bind fun line _ same => ?_
  obtain rfl := same
  have one : (1#128).toInt = 1 := rfl
  have rip := toInt_ofNat_of_word counter
  have inside : (BitVec.ofNat 128 machine.rip).toInt + (1#128).toInt ∈ Int128.range := by
    rw [rip, one]
    constructor <;> omega
  refine (add_agrees inside).step fun next sum => .pure ?_
  rw [push_eq, sum, rip, one]

theorem leave_agrees : (leave machine).Agrees Eq machine.leave := by
  rw [leave, Machine.leave]
  split
  · exact .pure rfl
  · rw [Machine.returnLine]
    split
    · exact .fault _
    · refine (readMemory_agrees machine machine.stackPointer .quad).step fun value holds => ?_
      obtain ⟨means, inside⟩ := holds
      obtain ⟨_, high⟩ := mem_quad_range.mp inside
      cases found : machine.readMemory machine.stackPointer .quad with
      | ofNat line =>
        rw [found] at means high
        have small : (line : Int) < 2 ^ 63 := high
        rw [Int128.word?_of_natCast means (by omega), setStackPointer_eq]
        exact .pure rfl
      | negSucc below =>
        rw [found] at means
        rw [Int128.word?_of_negSucc means, means]
        exact .fault _

theorem extendAccumulator_agrees : (extendAccumulator machine).Agrees Eq
    (.ok (machine.setRegister (.low .rax .quad)
      (machine.registers.readSigned (.low .rax .long))).advance) := by
  refine (readRegister_agrees machine _).step fun value holds => .pure ?_
  rw [setRegister_eq, holds.means]

/-- The division proper, once dividend and divisor are there. -/
theorem settle_agrees {size : Size} {dividend divisor : Int128} (nonzero : divisor ≠ 0#128)
    (machine : Machine) :
    Agrees Eq (do
      let quotient ← checkedDiv dividend divisor
      let remainder ← checkedRem dividend divisor
      if fits size quotient then
        return (setRegister (setRegister machine (Instruction.dividendRegisters size).2 quotient)
          (Instruction.dividendRegisters size).1 remainder).advance
      else .fault .divisionOverflow)
    (Instruction.settle size (Alu.divide? size dividend.toInt divisor.toInt) machine) := by
  by_cases escapes : dividend = BitVec.intMin 128 ∧ divisor = -1#128
  · obtain ⟨lowest, minusOne⟩ := escapes
    have wide : size.fits (dividend.toInt.tdiv divisor.toInt) = false := by
      rw [lowest, minusOne]
      cases size <;> decide
    rw [Alu.divide?, wide]
    exact .fails (checkedDiv_escapes lowest minusOne)
  · refine (checkedDiv_agrees nonzero escapes).step fun quotient divided => ?_
    refine (checkedRem_agrees nonzero escapes).step fun remainder left => ?_
    simp only [Alu.divide?, Int128.fits_eq, setRegister_eq]
    rw [divided, left]
    split
    · exact .pure rfl
    · exact .fault _

theorem lowHalf_lt (machine : Machine) (size : Size) :
    (ofWord (machine.registers.read (Instruction.dividendRegisters size).2)).toNat <
      2 ^ size.bits := by
  have low : (Instruction.dividendRegisters size).2.size = size := by cases size <;> rfl
  have bound := (machine.registers.view (Instruction.dividendRegisters size).2).isLt
  rw [ofWord, BitVec.toNat_setWidth_of_le (by decide), RegisterFile.toNat_read]
  exact bound.trans_eq (congrArg (2 ^ Size.bits ·) low)

theorem divide_agrees (noLabel : slot.label = false)
    (matched : (instruction.operands.map LabelRef.name).Match [slot]) :
    (divide instruction machine labels).Agrees Eq (instruction.divide machine labels) := by
  rw [Instruction.divide_eq]
  refine (unary_agrees matched).bind fun operand _ found => ?_
  obtain ⟨rfl, admitted⟩ := found
  refine (read_agrees admitted noLabel _).bind fun divisor _ holds => ?_
  obtain ⟨rfl, _⟩ := holds
  have zero : (divisor = 0#128) = (divisor.toInt = 0) := by
    rw [← BitVec.toInt_zero (w := 128), BitVec.toInt_inj]
  by_cases nonzero : divisor = 0#128
  · rw [if_pos nonzero, if_pos (zero.mp nonzero)]
    exact .fault _
  rw [if_neg nonzero, if_neg (zero ▸ nonzero)]
  generalize instruction.mnemonic.size = size
  have small := lowHalf_lt machine size
  refine (readRegister_agrees machine (Instruction.dividendRegisters size).1).step
    fun high holds => ?_
  obtain ⟨means, inside⟩ := holds
  rw [← means] at inside
  refine (shiftLeft_agrees inside size.bits_le).step fun shifted moved => ?_
  refine (join_agrees moved inside size.bits_le small).step fun dividend joined => ?_
  have whole : dividend.toInt = machine.dividend size := by
    rw [joined, means, ofWord, BitVec.toNat_setWidth_of_le (by decide), machine.dividend_eq]
  rw [← whole]
  exact settle_agrees nonzero machine

/-- An instruction whose operands fit their places. -/
theorem execute_agrees (counter : machine.rip < 2 ^ 64)
    (words : ∀ id line, labels.line? id = some line → line < 2 ^ 64)
    (matched : (instruction.operands.map LabelRef.name).Match instruction.mnemonic.slots) :
    (execute instruction machine labels).Agrees Eq (instruction.execute machine labels) := by
  obtain ⟨⟨opcode, size, sourceSize⟩, operands⟩ := instruction
  cases opcode with
  | add => exact combine_agrees ⟨rfl, rfl⟩ matched fun _ _ => sumOf_agrees
  | sub => exact combine_agrees ⟨rfl, rfl⟩ matched fun _ _ => differenceOf_agrees
  | imul => exact combine_agrees ⟨rfl, rfl⟩ matched fun _ _ => productOf_agrees
  | cmp => exact compare_agrees ⟨rfl, rfl⟩ matched fun _ _ => differenceOf_agrees
  | or => exact combine_agrees ⟨rfl, rfl⟩ matched fun _ _ _ _ => disjunction_agrees ..
  | and => exact combine_agrees ⟨rfl, rfl⟩ matched fun _ _ _ _ => conjunction_agrees ..
  | xor => exact combine_agrees ⟨rfl, rfl⟩ matched fun _ _ _ _ => exclusion_agrees ..
  | test => exact compare_agrees ⟨rfl, rfl⟩ matched fun _ _ _ _ => conjunction_agrees ..
  | inc => exact modify_agrees rfl matched fun _ => increment_agrees
  | dec => exact modify_agrees rfl matched fun _ => decrement_agrees
  | neg => exact modify_agrees rfl matched fun _ => negationOf_agrees
  | not => exact modify_agrees rfl matched fun value _ => complement_agrees size value
  | sal | shl => exact shift_agrees ⟨rfl, rfl⟩ matched fun _ _ => leftShift_agrees
  | sar =>
    exact shift_agrees ⟨rfl, rfl⟩ matched fun value _ _ few => rightShift_agrees size value few
  | shr =>
    exact shift_agrees ⟨rfl, rfl⟩ matched fun value _ _ few => unsignedShift_agrees value few
  | mov => exact move_agrees rfl matched fun _ => rfl
  | movz => exact move_agrees rfl matched (Int128.toInt_zeroExtend sourceSize)
  | movs => exact move_agrees rfl matched fun _ => rfl
  | lea => exact loadAddress_agrees matched
  | idiv => exact divide_agrees rfl matched
  | push => exact pushOperand_agrees rfl matched
  | pop => exact popOperand_agrees matched
  | clt => exact extendAccumulator_agrees
  | set => exact setIf_agrees matched
  | jumpIf | jmp => exact branchIf_agrees words matched
  | call => exact enter_agrees counter words matched
  | ret => exact leave_agrees

end Instructions

/-- 128 bits suffice. Whatever accepted line is evaluated, on any machine and with any label table,
line numbers being words, the numbers of 128 bits lead to the machine or the fault that the integers
lead to. All that is calculated stays inside, and all shifts are by fewer bits than there are. Only
the quotient of the lowest number and minus one does not, and that is an overflow of the division
in both. -/
theorem evaluate_sufficient {session next : Source.Session} {text : String} {line : Line}
    (parsed : session.parseLine text = (.ok line, next)) (machine : Machine) (labels : LabelTable)
    (counter : machine.rip < 2 ^ 64)
    (words : ∀ id line, labels.line? id = some line → line < 2 ^ 64) :
    evaluate line machine labels = line.evaluate machine labels ∧
      ∀ calculation ∈ calculations line machine labels,
        (-2 ^ 127 ≤ calculation.exact ∧ calculation.exact < 2 ^ 127 ∨
          calculation = .quotient (-2 ^ 127) (-1) ∧
            line.evaluate machine labels = .error ⟨line.number, .divisionOverflow⟩) ∧
        ∀ amount ∈ calculation.amount?, amount ≤ 127 := by
  cases found : line.instruction? with
  | none =>
    simp only [evaluate, calculations, Line.evaluate, found]
    exact ⟨trivial, List.forall_mem_nil _⟩
  | some body =>
    have accepted : line.Accepted body := ⟨⟨session, next, text, parsed⟩, found⟩
    have agrees := execute_agrees counter words accepted.matched
    simp only [evaluate, calculations, Line.evaluate, found]
    generalize execute body machine labels = traced at agrees
    generalize body.execute machine labels = run at agrees
    obtain ⟨outcome, noted⟩ := traced
    obtain ⟨ends, inside⟩ := agrees
    refine ⟨?_, fun calculation listed => ?_⟩
    · cases ends with
      | ok same => rw [same]
      | error cause => rfl
    · rcases inside calculation listed with ⟨exact, amount⟩ | ⟨escapes, fails⟩
      · exact ⟨.inl exact, amount⟩
      · subst escapes fails
        exact ⟨.inr ⟨rfl, rfl⟩, fun _ shifts => by cases shifts⟩

/-- The lowest dividend over minus one. -/
theorem evaluate_sufficient_escaping :
    let body : Instruction LabelRef := ⟨.uniform .idiv .quad, .unary (.register (.low .rcx .quad))⟩
    let line : Line := ⟨0, .instruction body, none, false⟩
    let machine := ((Machine.initial Machine.defaultStackBase).setRegister (.low .rdx .quad)
      (-2 ^ 63)).setRegister (.low .rcx .quad) (-1)
    .quotient (-2 ^ 127) (-1) ∈ calculations line machine .empty ∧
      evaluate line machine .empty = .error ⟨0, .divisionOverflow⟩ ∧
      line.evaluate machine .empty = .error ⟨0, .divisionOverflow⟩ := by
  intro body line machine
  have parsed : Source.Session.parseLine .empty "idivq %rcx" = (.ok line, ⟨1, .empty⟩) := by
    decide +kernel
  have escapes : .quotient (-2 ^ 127) (-1) ∈ calculations line machine .empty := by decide +kernel
  obtain ⟨same, inside⟩ := evaluate_sufficient parsed machine .empty (by decide) nofun
  obtain ⟨⟨_, high⟩ | ⟨_, fails⟩, _⟩ := inside _ escapes
  · exact absurd high (by decide)
  · exact ⟨escapes, same.trans fails, fails⟩

end FixedWidth

end AsmLab
