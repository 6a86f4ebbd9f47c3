import AsmLab.Proofs.Machine.ReadBack

/-! Numbers by their bytes. The bytes of a number are those that storing it writes and reading it
reads, and the number of a width is told by as many of them as the width has. -/
namespace AsmLab

/-- Byte `index` of the endless two's complement form of `value`. -/
def byteOf (value : Int) (index : Nat) : Byte :=
  BitVec.ofInt 8 (value >>> (8 * index))

/-- Bits that are shifted to the lowest byte are not touched by a cut above them. -/
theorem shiftRight_emod (value : Int) {shift width : Nat} (inside : shift + 8 ≤ width) :
    ((value % 2 ^ width) >>> shift) % 2 ^ 8 = (value >>> shift) % 2 ^ 8 := by
  obtain ⟨room, rfl⟩ := Nat.exists_eq_add_of_le inside
  have whole := Int.emod_add_mul_ediv value (2 ^ (shift + 8 + room))
  have factors : (2 : Int) ^ (shift + 8 + room) * (value / 2 ^ (shift + 8 + room)) =
      2 ^ shift * (2 ^ 8 * (2 ^ room * (value / 2 ^ (shift + 8 + room)))) := by ring
  have positive : (2 : Int) ^ shift ≠ 0 := by positivity
  rw [Int.shiftRight_eq_div_pow, Int.shiftRight_eq_div_pow]
  conv_rhs => rw [← whole, factors]
  push_cast
  rw [Int.add_mul_ediv_left _ _ positive, Int.add_mul_emod_self_left]

theorem byteOf_emod (value : Int) {index width : Nat} (inside : 8 * index + 8 ≤ width) :
    byteOf (value % 2 ^ width) index = byteOf value index := by
  apply BitVec.eq_of_toNat_eq
  rw [byteOf, byteOf, BitVec.toNat_ofInt, BitVec.toNat_ofInt]
  exact congrArg Int.toNat (shiftRight_emod value inside)

theorem byteOf_natCast (value index : Nat) :
    byteOf value index = BitVec.ofNat 8 (value / 256 ^ index) := by
  rw [byteOf, ← Int.natCast_shiftRight, BitVec.ofInt_natCast, Nat.shiftRight_eq_div_pow, pow_mul]
  norm_num

theorem getElem?_littleEndian {count index : Nat} (value : Nat) (inside : index < count) :
    (littleEndian count value)[index]? = some (byteOf value index) := by
  induction count generalizing value index with
  | zero => cases inside
  | succ count ih =>
    cases index with
    | zero => simp [littleEndian, byteOf_natCast]
    | succ index =>
      rw [littleEndian, List.getElem?_cons_succ, ih _ (Nat.lt_of_succ_lt_succ inside),
        byteOf_natCast, byteOf_natCast, Nat.div_div_eq_div_mul, ← Nat.pow_succ']

theorem byteOf_ofLittleEndian (bytes : List Byte) (index : Nat) :
    byteOf (ofLittleEndian bytes) index = bytes[index]?.getD 0 := by
  rw [byteOf_natCast]
  induction bytes generalizing index with
  | nil => simp [ofLittleEndian]
  | cons byte rest ih =>
    have bound := byte.isLt
    cases index with
    | zero =>
      apply BitVec.eq_of_toNat_eq
      simpa [ofLittleEndian] using bound
    | succ index =>
      have next : ofLittleEndian (byte :: rest) / 256 ^ (index + 1) =
          ofLittleEndian rest / 256 ^ index := by
        rw [ofLittleEndian, Nat.pow_succ', ← Nat.div_div_eq_div_mul, Nat.add_mul_div_left _ _
          (by decide), Nat.div_eq_of_lt bound, Nat.zero_add]
      rw [next, ih, List.getElem?_cons_succ]

namespace Size

variable {size : Size} {index : Nat} {first second value : Int}

theorem byte_inside (inside : index < size.bytes) : 8 * index + 8 ≤ size.bits :=
  Nat.mul_le_mul_left 8 inside

theorem byteOf_zeroExtend (value : Int) (inside : index < size.bytes) :
    byteOf (size.zeroExtend value) index = byteOf value index := by
  rw [zeroExtend, natCast_modulus]
  exact byteOf_emod value (byte_inside inside)

/-- The bytes of a width do not depend on whether it is read as signed or as unsigned. -/
theorem byteOf_truncate (value : Int) (inside : index < size.bytes) :
    byteOf (size.truncate value) index = byteOf value index := by
  rw [← byteOf_zeroExtend _ inside, zeroExtend_truncate, byteOf_zeroExtend _ inside]

/-- What a store writes: the bytes of the number, lowest first. -/
theorem getElem?_stored (value : Int) (inside : index < size.bytes) :
    (littleEndian size.bytes (size.zeroExtend value).toNat)[index]? = some (byteOf value index) := by
  have nonneg : 0 ≤ size.zeroExtend value := Int.emod_nonneg _ (by cases size <;> decide)
  rw [getElem?_littleEndian _ inside, Int.toNat_of_nonneg nonneg, byteOf_zeroExtend value inside]

theorem truncate_congr (same : ∀ index < size.bytes, byteOf first index = byteOf second index) :
    size.truncate first = size.truncate second := by
  have stored : littleEndian size.bytes (size.zeroExtend first).toNat =
      littleEndian size.bytes (size.zeroExtend second).toNat := by
    apply List.ext_getElem?
    intro index
    by_cases inside : index < size.bytes
    · rw [getElem?_stored first inside, getElem?_stored second inside, same index inside]
    · rw [List.getElem?_eq_none (by rw [length_littleEndian]; omega),
        List.getElem?_eq_none (by rw [length_littleEndian]; omega)]
  rw [truncate_eq, truncate_eq, ← ofNat_littleEndian, ← ofNat_littleEndian, stored]

end Size

end AsmLab
