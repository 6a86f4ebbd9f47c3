import Mathlib
import AsmLab.Machine.Size

/-! The signed numbers of a width, told by their number of bits. -/
namespace AsmLab

theorem Size.bits_pos (size : Size) : 0 < size.bits := by
  cases size <;> decide

theorem Size.bits_le (size : Size) : size.bits ≤ 64 := by
  cases size <;> decide

theorem Size.one_lt_bits (size : Size) : 1 < size.bits := by
  cases size <;> decide

theorem Size.modulus_eq (size : Size) : size.modulus = 2 ^ size.bits := by
  cases size <;> rfl

theorem Size.natCast_modulus (size : Size) : (size.modulus : Int) = 2 ^ size.bits := by
  rw [modulus_eq, Nat.cast_pow, Nat.cast_ofNat]

theorem Size.truncate_eq (size : Size) (value : Int) :
    size.truncate value = (BitVec.ofInt size.bits value).toInt := by
  rw [truncate, modulus_eq, BitVec.toInt_ofInt]

theorem bitLength_le_iff (value : Int) (bits : Nat) :
    bitLength value ≤ bits ↔ -(2 : Int) ^ bits ≤ value ∧ value < (2 : Int) ^ bits := by
  have magnitudes (magnitude : Nat) :
      (if magnitude = 0 then 0 else magnitude.log2 + 1) ≤ bits ↔ magnitude < 2 ^ bits := by
    split
    · rename_i zero
      simp [zero]
    · rename_i nonzero
      rw [Nat.succ_le_iff, Nat.log2_lt nonzero]
  have power : ((2 ^ bits : Nat) : Int) = (2 : Int) ^ bits := by simp
  have positive : 0 < 2 ^ bits := Nat.two_pow_pos bits
  cases value with
  | ofNat magnitude =>
    rw [bitLength, magnitudes, ← power]
    simp only [Int.ofNat_eq_natCast]
    omega
  | negSucc magnitude =>
    rw [bitLength, magnitudes, ← power]
    omega

theorem Size.fits_iff (size : Size) (value : Int) :
    size.fits value = true ↔
      -(2 : Int) ^ (size.bits - 1) ≤ value ∧ value < (2 : Int) ^ (size.bits - 1) := by
  have positive := size.bits_pos
  rw [← bitLength_le_iff, fits, decide_eq_true_iff]
  omega

theorem Size.truncate_of_range (size : Size) {value : Int}
    (low : -(2 : Int) ^ (size.bits - 1) ≤ value) (high : value < (2 : Int) ^ (size.bits - 1)) :
    size.truncate value = value := by
  rw [truncate, modulus_eq]
  have half : (2 : Int) ^ size.bits = 2 * 2 ^ (size.bits - 1) := by
    rw [← pow_succ', Nat.sub_add_cancel size.bits_pos]
  have power : ((2 ^ size.bits : Nat) : Int) = 2 ^ size.bits := by simp
  apply Int.bmod_eq_of_le
  · rw [power]
    omega
  · rw [power]
    omega

theorem Size.truncate_range (size : Size) (value : Int) :
    -(2 : Int) ^ (size.bits - 1) ≤ size.truncate value ∧
      size.truncate value < (2 : Int) ^ (size.bits - 1) := by
  rw [truncate_eq]
  exact ⟨BitVec.le_toInt _, BitVec.toInt_lt⟩

theorem Size.zeroExtend_truncate (size : Size) (value : Int) :
    size.zeroExtend (size.truncate value) = size.zeroExtend value := by
  rw [zeroExtend, truncate, Int.bmod_emod, zeroExtend]

theorem Size.truncate_truncate (size : Size) (value : Int) :
    size.truncate (size.truncate value) = size.truncate value := by
  rw [size.truncate_eq (size.truncate value), size.truncate_eq, BitVec.ofInt_toInt]

end AsmLab
