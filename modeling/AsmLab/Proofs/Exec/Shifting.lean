import AsmLab.Proofs.Exec.Arithmetic

/-! Shifts as repeated shifts by one bit. The closed formulas for the stored bits and the carry flag
are what the single shifts lead to, also for counts at the width of the operand and beyond it. -/
namespace AsmLab

theorem bitAt_shiftRight (value : Int) (count index : Nat) :
    bitAt (value >>> count) index = bitAt value (count + index) := by
  rw [bitAt, bitAt, Int.shiftRight_add]

theorem bitAt_natCast (value index : Nat) : bitAt value index = value.testBit index := by
  have low : ((value : Int) >>> index) % 2 = ((value >>> index % 2 : Nat) : Int) := by
    rw [← Int.natCast_shiftRight, Int.natCast_emod]
    rfl
  rw [bitAt, low, Nat.testBit_eq_decide_div_mod_eq, Nat.shiftRight_eq_div_pow, decide_eq_decide]
  norm_cast

theorem bitAt_toNat {width : Nat} (bits : BitVec width) (index : Nat) :
    bitAt bits.toNat index = bits.getLsbD index :=
  bitAt_natCast bits.toNat index

/-- The lowest bit tells odd numbers from even ones, signed or not. -/
theorem bitAt_toInt_zero {width : Nat} (bits : BitVec width) :
    bitAt bits.toInt 0 = bits.getLsbD 0 := by
  have parity : bits.toInt % 2 = (bits.toNat : Int) % 2 := by
    cases width with
    | zero => simp [BitVec.eq_nil bits]
    | succ width =>
      rw [BitVec.toInt_eq_toNat_cond]
      split
      · rfl
      · push_cast
        rw [pow_succ]
        omega
  rw [← bitAt_toNat, bitAt, bitAt, Int.shiftRight_zero, Int.shiftRight_zero, parity]

theorem BitVec.ofInt_shiftLeft {width : Nat} (bits : BitVec width) (count : Nat) :
    BitVec.ofInt width (bits.toInt <<< count) = bits <<< count := by
  have power : BitVec.ofInt width (2 ^ count) = BitVec.twoPow width count := by
    apply BitVec.eq_of_toNat_eq
    rw [BitVec.toNat_ofInt, BitVec.toNat_twoPow]
    norm_cast
  rw [Int.shiftLeft_eq, BitVec.ofInt_mul, BitVec.ofInt_toInt, power,
    BitVec.shiftLeft_eq_mul_twoPow]

namespace Alu

/-- Where bits move, and what moves in behind them. -/
inductive ShiftKind where
  | left
  | unsignedRight
  | signedRight
  deriving DecidableEq, Repr

/-- The bits of an operand and the last one that has left it. -/
structure Shifted (width : Nat) where
  bits : BitVec width
  carry : Bool
  deriving DecidableEq, Repr

namespace ShiftKind

variable {width : Nat}

/-- A shift by one bit: twice the number, or half of it rounded down. -/
def once (kind : ShiftKind) (shifted : Shifted width) : Shifted width :=
  let bits := shifted.bits
  match kind with
  | left => ⟨BitVec.ofNat width (2 * bits.toNat), bits.msb⟩
  | unsignedRight => ⟨BitVec.ofNat width (bits.toNat / 2), bits.getLsbD 0⟩
  | signedRight => ⟨BitVec.ofInt width (bits.toInt / 2), bits.getLsbD 0⟩

/-- What a shift by a count of bits makes of an operand. Only a shift to the left by one bit can
overflow: it does if the two top bits differ. -/
def outcome (kind : ShiftKind) (flags : Flags) (destination : BitVec width) (count : Nat) :
    Outcome width :=
  let shifted := kind.once^[count] ⟨destination, flags.carry⟩
  .of shifted.bits shifted.carry
    (kind = left && count = 1 && (destination.getMsbD 0 != destination.getMsbD 1))

variable (bits : BitVec width) (carry : Bool)

theorem once_left : left.once ⟨bits, carry⟩ = ⟨bits <<< 1, bits.msb⟩ := by
  have double : BitVec.ofNat width (2 * bits.toNat) = bits <<< 1 := by
    apply BitVec.eq_of_toNat_eq
    rw [BitVec.toNat_ofNat, BitVec.toNat_shiftLeft, Nat.shiftLeft_eq, pow_one, Nat.mul_comm]
  rw [once, double]

theorem once_unsignedRight :
    unsignedRight.once ⟨bits, carry⟩ = ⟨bits >>> 1, bits.getLsbD 0⟩ := by
  have half : BitVec.ofNat width (bits.toNat / 2) = bits >>> 1 := by
    rw [← pow_one 2, ← Nat.shiftRight_eq_div_pow, ← BitVec.toNat_ushiftRight, BitVec.ofNat_toNat,
      BitVec.setWidth_eq]
  rw [once, half]

theorem once_signedRight :
    signedRight.once ⟨bits, carry⟩ = ⟨bits.sshiftRight 1, bits.getLsbD 0⟩ := by
  have signed : bits.toInt / 2 = (bits.sshiftRight 1).toInt := by
    rw [BitVec.toInt_sshiftRight, Int.shiftRight_eq_div_pow]
    rfl
  rw [once, signed, BitVec.ofInt_toInt]

/-- The shift by the full width moves the lowest bit out, and every later one a zero. -/
theorem iterate_left (count : Nat) :
    left.once^[count] ⟨bits, carry⟩ =
      ⟨bits <<< count,
        (shiftCarry count (count ≤ width && bits.getLsbD (width - count))).getD carry⟩ := by
  induction count with
  | zero => simp [shiftCarry]
  | succ count ih =>
    have top : (bits <<< count).msb =
        (decide (count + 1 ≤ width) && bits.getLsbD (width - (count + 1))) := by
      have index : width - 1 - count = width - (count + 1) := by omega
      rw [BitVec.msb_shiftLeft, BitVec.getMsbD, index, decide_eq_decide.mpr Nat.lt_iff_add_one_le]
    rw [Function.iterate_succ_apply', ih, once_left, ← BitVec.shiftLeft_add, top]
    rfl

theorem iterate_unsignedRight (count : Nat) :
    unsignedRight.once^[count] ⟨bits, carry⟩ =
      ⟨bits >>> count, (shiftCarry count (bitAt bits.toNat (count - 1))).getD carry⟩ := by
  induction count with
  | zero => simp [shiftCarry]
  | succ count ih =>
    have lowest : (bits >>> count).getLsbD 0 = bitAt bits.toNat count := by
      rw [BitVec.getLsbD_ushiftRight, bitAt_toNat, Nat.add_zero]
    rw [Function.iterate_succ_apply', ih, once_unsignedRight, ← BitVec.shiftRight_add, lowest]
    rfl

theorem iterate_signedRight (count : Nat) :
    signedRight.once^[count] ⟨bits, carry⟩ =
      ⟨bits.sshiftRight count, (shiftCarry count (bitAt bits.toInt (count - 1))).getD carry⟩ := by
  induction count with
  | zero => simp [shiftCarry]
  | succ count ih =>
    have lowest : (bits.sshiftRight count).getLsbD 0 = bitAt bits.toInt count := by
      rw [← bitAt_toInt_zero, BitVec.toInt_sshiftRight, bitAt_shiftRight, Nat.add_zero]
    rw [Function.iterate_succ_apply', ih, once_signedRight, ← BitVec.sshiftRight_add, lowest]
    rfl

end ShiftKind

section Encoding

variable {size : Size} (flags : Flags) (destination : BitVec size.bits) (count : Nat)

theorem zeroExtend_toInt : size.zeroExtend destination.toInt = destination.toNat := by
  rw [Size.zeroExtend, Size.modulus_eq, BitVec.toInt_eq_toNat_bmod, Int.bmod_emod]
  exact Int.emod_eq_of_lt (Int.natCast_nonneg _) (Int.ofNat_lt.mpr destination.isLt)

theorem shl_encodes : (shl size destination.toInt count).Encodes flags
    (ShiftKind.left.outcome flags destination count) := by
  have value : size.truncate (destination.toInt <<< count) = (destination <<< count).toInt := by
    rw [size.truncate_eq, BitVec.ofInt_shiftLeft]
  have wide := size.one_lt_bits
  have topBits : (bitAt (size.zeroExtend destination.toInt) (size.bits - 1) !=
        bitAt (size.zeroExtend destination.toInt) (size.bits - 2)) =
      (destination.getMsbD 0 != destination.getMsbD 1) := by
    simp [zeroExtend_toInt, bitAt_toNat, BitVec.getMsbD, size.bits_pos, wide, Nat.sub_sub]
  have overflow : (decide (ShiftKind.left = .left) && decide (count = 1) &&
        (destination.getMsbD 0 != destination.getMsbD 1)) =
      (decide (count = 1) && (destination.getMsbD 0 != destination.getMsbD 1)) := rfl
  rw [ShiftKind.outcome, ShiftKind.iterate_left, overflow, ← topBits]
  refine ⟨value, ?_⟩
  simp only [shl, value, zeroExtend_toInt, bitAt_toNat]
  exact zeroSign_apply flags _ _ _

/-- A shift to the right, of signed or unsigned contents. -/
theorem shiftRight_encodes {kind : ShiftKind} {contents : Int} {bits : BitVec size.bits}
    (value : BitVec.ofInt size.bits (contents >>> count) = bits) (right : kind ≠ .left)
    (iterated : kind.once^[count] ⟨destination, flags.carry⟩ =
      ⟨bits, (shiftCarry count (bitAt contents (count - 1))).getD flags.carry⟩) :
    (shiftRight size contents count).Encodes flags (kind.outcome flags destination count) := by
  have stored : size.truncate (contents >>> count) = bits.toInt := by
    rw [size.truncate_eq, value]
  rw [ShiftKind.outcome, iterated, decide_eq_false right]
  refine ⟨stored, ?_⟩
  simp only [shiftRight, stored]
  exact zeroSign_apply flags _ _ _

theorem sar_encodes : (sar size destination.toInt count).Encodes flags
    (ShiftKind.signedRight.outcome flags destination count) := by
  have value : BitVec.ofInt size.bits (destination.toInt >>> count) =
      destination.sshiftRight count := by
    rw [← BitVec.toInt_sshiftRight, BitVec.ofInt_toInt]
  exact shiftRight_encodes flags destination count value nofun
    (ShiftKind.iterate_signedRight destination flags.carry count)

theorem shr_encodes : (shr size destination.toInt count).Encodes flags
    (ShiftKind.unsignedRight.outcome flags destination count) := by
  rw [shr, zeroExtend_toInt]
  have value : BitVec.ofInt size.bits ((destination.toNat : Int) >>> count) =
      destination >>> count := by
    rw [← Int.natCast_shiftRight, ← BitVec.toNat_ushiftRight, BitVec.ofInt_natCast,
      BitVec.ofNat_toNat, BitVec.setWidth_eq]
  exact shiftRight_encodes flags destination count value nofun
    (ShiftKind.iterate_unsignedRight destination flags.carry count)

end Encoding

end Alu

/-- The way in which an instruction shifts. -/
def Opcode.shift? : Opcode → Option Alu.ShiftKind
  | sal | shl => some .left
  | shr => some .unsignedRight
  | sar => some .signedRight
  | _ => none

namespace Instruction

variable {instruction : Instruction LabelRef} {kind : Alu.ShiftKind}

/-- An instruction that shifts its destination by a count, of which the low six bits matter. -/
theorem execute_shift (machine : Machine) (labels : LabelTable)
    (matched : (instruction.operands.map LabelRef.name).Match instruction.mnemonic.slots)
    (shifts : instruction.mnemonic.opcode.shift? = some kind) :
    ∃ count destination after,
      instruction.operands = .binary count destination ∧
      instruction.execute machine labels = .ok after ∧
      let outcome := kind.outcome machine.flags
        (destination.contents instruction.mnemonic.size machine)
        ((count.contents .byte machine).toNat % 64)
      destination.Stores instruction.mnemonic.size outcome.bits machine after ∧
        after.flags = outcome.flags := by
  obtain ⟨operation, slots, runs, encodes⟩ : ∃ operation : Size → Int → Nat → Alu.Result,
      instruction.mnemonic.slots = [.count, .location instruction.mnemonic.size] ∧
      instruction.execute machine labels = instruction.shift machine labels operation ∧
      ∀ (destination : BitVec instruction.mnemonic.size.bits) (count : Nat),
        (operation instruction.mnemonic.size destination.toInt count).Encodes machine.flags
          (kind.outcome machine.flags destination count) := by
    obtain ⟨⟨opcode, size, sourceSize⟩, operands⟩ := instruction
    cases opcode with
    | sal | shl =>
      obtain rfl := Option.some.inj shifts
      exact ⟨Alu.shl, rfl, rfl, Alu.shl_encodes machine.flags⟩
    | sar =>
      obtain rfl := Option.some.inj shifts
      exact ⟨Alu.sar, rfl, rfl, Alu.sar_encodes machine.flags⟩
    | shr =>
      obtain rfl := Option.some.inj shifts
      exact ⟨Alu.shr, rfl, rfl, Alu.shr_encodes machine.flags⟩
    | _ => cases shifts
  rw [slots] at matched
  obtain ⟨count, destination, shape, admittedCount, admitted⟩ := matched.exists_binary
  have readCount : count.read .byte machine labels = .ok (count.contents .byte machine).toInt :=
    Operand.read_eq_contents admittedCount rfl machine labels
  have readFirst := Operand.read_location admitted machine labels
  obtain ⟨stored, wrote, flags, stores⟩ := exists_complete admitted
    (encodes (destination.contents _ machine) ((count.contents .byte machine).toNat % 64))
  refine ⟨count, destination, _, shape, ?_, stores, flags⟩
  rw [runs]
  simp [shift, binary, shape, readCount, readFirst, Alu.shiftCount_toInt, wrote, bind, Except.bind,
    pure, Except.pure]

end Instruction

/-- An accepted shift succeeds on every machine. Its result and carry are those of shifting one bit
after the other, and a count of zero leaves both alone. -/
theorem Line.Accepted.evaluate_shift {line : Line} {body : Instruction LabelRef}
    {kind : Alu.ShiftKind} (accepted : line.Accepted body)
    (shifts : body.mnemonic.opcode.shift? = some kind) (machine : Machine) (labels : LabelTable) :
    ∃ count destination after,
      body.operands = .binary count destination ∧
      line.evaluate machine labels = .ok after ∧
      let before := destination.contents body.mnemonic.size machine
      let steps := (count.contents .byte machine).toNat % 64
      let shifted := kind.once^[steps] ⟨before, machine.flags.carry⟩
      destination.Stores body.mnemonic.size shifted.bits machine after ∧
        after.flags =
          { zero := shifted.bits == 0
            sign := shifted.bits.msb
            carry := shifted.carry
            overflow := kind = .left && steps = 1 && (before.getMsbD 0 != before.getMsbD 1) } := by
  obtain ⟨count, destination, after, shape, run, stores, flags⟩ :=
    body.execute_shift machine labels accepted.matched shifts
  refine ⟨count, destination, after.countStep, shape, ?_, stores.of_eq rfl rfl, flags⟩
  simp only [Line.evaluate, accepted.found, run]

/-- A byte shifted by its own low bits, which are as many as its width: the lowest bit ends in the
carry. -/
theorem Line.Accepted.evaluate_shift_width :
    let high : Operand LabelRef := .register (.high .ch)
    let body : Instruction LabelRef :=
      ⟨.uniform .shl .byte, .binary (.register (.low .rcx .byte)) high⟩
    let line : Line := ⟨0, .instruction body, none, false⟩
    let machine := (Machine.initial Machine.defaultStackBase).setRegister (.low .rcx .word) 0x8148
    line.Accepted body ∧
      ∃ after, line.evaluate machine .empty = .ok after ∧ high.contents .byte after = 0 ∧
        after.flags = { zero := true, carry := true } := by
  intro high body line machine
  have accepted : line.Accepted body :=
    ⟨⟨.empty, ⟨1, .empty⟩, "shlb %cl, %ch", by decide +kernel⟩, rfl⟩
  have shifts : body.mnemonic.opcode.shift? = some .left := rfl
  obtain ⟨count, destination, after, shape, evaluates, stores, flags⟩ :=
    accepted.evaluate_shift shifts machine .empty
  obtain ⟨rfl, rfl⟩ := Operands.binary.inj shape
  have emptied : high.contents .byte after = 0 :=
    stores.contents.trans (BitVec.eq_of_toNat_eq (by decide +kernel))
  exact ⟨accepted, after, evaluates, emptied, flags.trans (by decide +kernel)⟩

end AsmLab
