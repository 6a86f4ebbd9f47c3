import AsmLab.Machine.State
import AsmLab.Proofs.Machine.SizeRange

/-! What was stored is read back: a view of a register holds the bits that were spliced into it, and
memory holds the bytes that were written to it, also where they wrap around the top of the address
space. Bits and bytes beside them are as they were. -/
namespace AsmLab

theorem extractLsb'_splice {width : Nat} (whole : BitVec 64) {start : Nat} (part : BitVec width)
    (inside : start + width ≤ 64) : (splice whole start part).extractLsb' start width = part := by
  apply BitVec.eq_of_getLsbD_eq
  intro index bound
  have placed : start ≤ start + index ∧ start + index < start + width := by omega
  rw [BitVec.getLsbD_extractLsb', getLsbD_splice _ _ _ _ (by omega), if_pos placed,
    Nat.add_sub_cancel_left, decide_eq_true bound, Bool.true_and]

theorem Register.shift_add_bits_le (register : Register) :
    register.shift + register.size.bits ≤ 64 := by
  cases register with
  | low parent size => cases size <;> simp [Register.shift, Register.size, Size.bits, Size.bytes]
  | high byte => cases byte <;> decide

@[simp]
theorem RegisterFile.view_setView (file : RegisterFile) (register : Register)
    (bits : BitVec register.size.bits) : (file.setView register bits).view register = bits := by
  rw [view, setView, get_set, if_pos rfl, extractLsb'_splice _ _ register.shift_add_bits_le]

/-- Bits that do not belong to the view keep their value, in whatever register they are. -/
theorem RegisterFile.getLsbD_setView (file : RegisterFile) (register : Register)
    (bits : BitVec register.size.bits) (parent : Gpr) (index : Nat)
    (outside : ¬ (register.parent = parent ∧ register.shift ≤ index ∧
      index < register.shift + register.size.bits)) :
    ((file.setView register bits).get parent).getLsbD index = (file.get parent).getLsbD index := by
  rw [setView, get_set]
  split
  · rename_i same
    subst same
    by_cases inside : index < 64
    · rw [getLsbD_splice _ _ _ _ inside, if_neg (fun covered => outside ⟨rfl, covered⟩)]
    · rw [BitVec.getLsbD_of_ge _ _ (by omega), BitVec.getLsbD_of_ge _ _ (by omega)]
  · rfl

/-- Writing one view leaves those alone that share no bit with it. -/
theorem RegisterFile.view_setView_of_disjoint (file : RegisterFile) {written read : Register}
    (bits : BitVec written.size.bits)
    (disjoint : written.parent = read.parent →
      read.shift + read.size.bits ≤ written.shift ∨ written.shift + written.size.bits ≤ read.shift) :
    (file.setView written bits).view read = file.view read := by
  apply BitVec.eq_of_getLsbD_eq
  intro index inside
  rw [view, view, BitVec.getLsbD_extractLsb', BitVec.getLsbD_extractLsb', getLsbD_setView]
  rintro ⟨same, above, below⟩
  have apart := disjoint same
  omega

theorem RegisterFile.readSigned_write (file : RegisterFile) (register : Register) (value : Int) :
    (file.write register value).readSigned register = register.size.truncate value := by
  rw [readSigned, write, view_setView, Size.truncate_eq]

/-- The number of a register view is one of 64 bits. -/
theorem RegisterFile.truncate_readSigned (file : RegisterFile) (register : Register) :
    Size.quad.truncate (file.readSigned register) = file.readSigned register := by
  have wide : 2 ^ (register.size.bits - 1) ≤ (2 : Int) ^ (Size.quad.bits - 1) :=
    pow_le_pow_right₀ (by decide) (Nat.sub_le_sub_right register.size.bits_le 1)
  apply Size.truncate_of_range
  · exact (neg_le_neg wide).trans (BitVec.le_toInt _)
  · exact BitVec.toInt_lt.trans_le wide

theorem ofLittleEndian_littleEndian (count value : Nat) :
    ofLittleEndian (littleEndian count value) = value % 256 ^ count := by
  induction count generalizing value with
  | zero => simp [littleEndian, ofLittleEndian, Nat.mod_one]
  | succ count ih =>
    rw [littleEndian, ofLittleEndian, ih, Nat.pow_succ' (m := 256)]
    exact (Nat.mod_mul).symm

/-- The bytes of a stored number, put together again. -/
theorem Size.ofNat_littleEndian (size : Size) (value : Int) :
    BitVec.ofNat size.bits
        (ofLittleEndian (littleEndian size.bytes (size.zeroExtend value).toNat)) =
      BitVec.ofInt size.bits value := by
  have power : 256 ^ size.bytes = 2 ^ size.bits := by cases size <;> rfl
  have unsigned : (size.zeroExtend value).toNat = (BitVec.ofInt size.bits value).toNat := by
    rw [BitVec.toNat_ofInt, zeroExtend, modulus_eq]
  rw [ofLittleEndian_littleEndian, unsigned, power, Nat.mod_eq_of_lt (BitVec.isLt _),
    BitVec.ofNat_toNat, BitVec.setWidth_eq]

namespace Memory

variable (memory : Memory) (address : Address)

theorem length_read (length : Nat) : (memory.read address length).length = length := by
  induction length generalizing address with
  | zero => rfl
  | succ length ih => rw [read, List.length_cons, ih]

theorem getElem?_read {length index : Nat} (inside : index < length) :
    (memory.read address length)[index]? =
      some (memory.byteAt (address + BitVec.ofNat 64 index)) := by
  induction length generalizing address index with
  | zero => cases inside
  | succ length ih =>
    cases index with
    | zero => simp [read]
    | succ index =>
      have next : address + 1 + BitVec.ofNat 64 index = address + BitVec.ofNat 64 (index + 1) := by
        rw [BitVec.add_assoc, BitVec.add_comm 1, BitVec.ofNat_add]
        rfl
      rw [read, List.getElem?_cons_succ, ih _ (Nat.lt_of_succ_lt_succ inside), next]

/-- After a write each cell that it covers holds its byte, and every other cell is as it was. -/
theorem cell?_write {bytes : List Byte} (short : bytes.length ≤ 2 ^ 64) (step : Nat)
    (target : Address) :
    (memory.write address bytes step).cell? target =
      match bytes[(target - address).toNat]? with
      | some byte => some ⟨byte, step⟩
      | none => memory.cell? target := by
  induction bytes generalizing memory address with
  | nil => rfl
  | cons byte rest ih =>
    rw [List.length_cons] at short
    rw [write, ih _ _ (by omega)]
    by_cases here : target = address
    · subst here
      have last : (target - (target + 1)).toNat = 2 ^ 64 - 1 := by bv_omega
      have first : (target - target).toNat = 0 := by bv_omega
      rw [last, first, List.getElem?_eq_none (by omega), List.getElem?_cons_zero]
      simp [cell?]
    · have next : (target - address).toNat = (target - (address + 1)).toNat + 1 := by bv_omega
      rw [next, List.getElem?_cons_succ]
      simp [cell?, Std.ExtTreeMap.getElem?_insert, Ne.symm here]

theorem byteAt_write {bytes : List Byte} (short : bytes.length ≤ 2 ^ 64) (step : Nat)
    (target : Address) :
    (memory.write address bytes step).byteAt target =
      (bytes[(target - address).toNat]?).getD (memory.byteAt target) := by
  rw [byteAt, cell?_write memory address short]
  cases bytes[(target - address).toNat]? <;> rfl

theorem read_write {bytes : List Byte} (short : bytes.length ≤ 2 ^ 64) (step : Nat) :
    (memory.write address bytes step).read address bytes.length = bytes := by
  apply List.ext_getElem?
  intro index
  by_cases inside : index < bytes.length
  · have offset : (address + BitVec.ofNat 64 index - address).toNat = index := by
      have bound : index < 2 ^ 64 := inside.trans_le short
      rw [BitVec.add_comm, BitVec.add_sub_cancel, BitVec.toNat_ofNat, Nat.mod_eq_of_lt bound]
    rw [getElem?_read _ _ inside, byteAt_write _ _ short, offset, List.getElem?_eq_getElem inside]
    rfl
  · rw [List.getElem?_eq_none (by rw [length_read]; omega), List.getElem?_eq_none (by omega)]

/-- Reading depends on the cells that are read only. -/
theorem read_congr {first second : Memory} (address : Address) {length : Nat}
    (same : ∀ index < length, first.cell? (address + BitVec.ofNat 64 index) =
      second.cell? (address + BitVec.ofNat 64 index)) :
    first.read address length = second.read address length := by
  apply List.ext_getElem?
  intro index
  by_cases inside : index < length
  · rw [getElem?_read _ _ inside, getElem?_read _ _ inside, byteAt, byteAt, same index inside]
  · rw [List.getElem?_eq_none (by rw [length_read]; omega),
      List.getElem?_eq_none (by rw [length_read]; omega)]

end Memory

theorem Size.length_littleEndian_le (size : Size) (value : Nat) :
    (littleEndian size.bytes value).length ≤ 2 ^ 64 := by
  rw [length_littleEndian]
  cases size <;> decide

namespace Machine

variable (machine : Machine) (address : Address) (size : Size) (value : Int)

theorem read_store : (machine.store address size value).memory.read address size.bytes =
    littleEndian size.bytes (size.zeroExtend value).toNat := by
  have bytes := machine.memory.read_write address
    (size.length_littleEndian_le (size.zeroExtend value).toNat) machine.step
  rwa [length_littleEndian] at bytes

theorem cell?_store {target : Address} (outside : ¬ (target - address).toNat < size.bytes) :
    (machine.store address size value).memory.cell? target = machine.memory.cell? target := by
  rw [store, Memory.cell?_write _ _ (size.length_littleEndian_le _),
    List.getElem?_eq_none (by rw [length_littleEndian]; omega)]

theorem readMemory_store :
    (machine.store address size value).readMemory address size = size.truncate value := by
  rw [readMemory, read_store, Size.truncate_eq, BitVec.ofInt_natCast, Size.ofNat_littleEndian,
    ← Size.truncate_eq]

end Machine

end AsmLab
