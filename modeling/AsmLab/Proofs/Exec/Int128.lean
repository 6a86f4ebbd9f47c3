import AsmLab.Proofs.Exec.Division
import AsmLab.Proofs.Exec.Shifting

/-! Numbers of 128 bits in two's complement, with the cuts and tests that evaluation makes of them.
Each is done by shifting, masking or counting bits, and gives what the same operation on the integer
gives. -/
namespace AsmLab

abbrev Int128 := BitVec 128

namespace Int128

/-- The numbers of 128 bits. -/
def range : Set Int :=
  Set.Ico (-2 ^ 127) (2 ^ 127)

/-- Shifts what is above a width out at the top and the sign back in. -/
def cut (size : Size) (value : Int128) : Int128 :=
  (value <<< (128 - size.bits)).sshiftRight (128 - size.bits)

/-- Ones in the low bits. -/
def mask (size : Size) : Int128 :=
  BitVec.ofNat 128 (2 ^ size.bits - 1)

def zeroExtend (size : Size) (value : Int128) : Int128 :=
  value &&& mask size

/-- The bits below the leading ones of a negative number, or the leading zeros of another. -/
def bitLength (value : Int128) : Nat :=
  128 - (if value.slt 0#128 then (~~~value).clz else value.clz).toNat

def fits (size : Size) (value : Int128) : Bool :=
  bitLength value + 1 ≤ size.bits

/-- Whether the lowest bit is set. -/
def isOdd (value : Int128) : Bool :=
  value &&& 1#128 == 1#128

/-- An unsigned word as a number. -/
def ofWord (word : BitVec 64) : Int128 :=
  word.setWidth 128

/-- The low half of the bits. -/
def word (value : Int128) : BitVec 64 :=
  value.setWidth 64

/-- The number as an unsigned word, if it is one. -/
def word? (value : Int128) : Option Nat :=
  if value.toNat < 2 ^ 64 then some value.toNat else none

variable (size : Size) (value : Int128)

theorem toInt_mem_range : value.toInt ∈ range :=
  ⟨BitVec.le_toInt value, BitVec.toInt_lt⟩

theorem toInt_ofInt {exact : Int} (inside : exact ∈ range) :
    (BitVec.ofInt 128 exact).toInt = exact :=
  BitVec.toInt_ofInt_eq_self (by decide) inside.1 inside.2

theorem toInt_add {left right : Int128} (inside : left.toInt + right.toInt ∈ range) :
    (left + right).toInt = left.toInt + right.toInt := by
  have exact := toInt_ofInt inside
  rwa [BitVec.ofInt_add, BitVec.ofInt_toInt, BitVec.ofInt_toInt] at exact

theorem toInt_of_toNat_lt {value : Int128} (small : value.toNat < 2 ^ 127) :
    value.toInt = value.toNat :=
  BitVec.toInt_eq_toNat_of_lt (by omega)

theorem modulus_dvd : size.modulus ∣ 2 ^ 128 := by
  rw [Size.modulus_eq]
  exact Nat.pow_dvd_pow 2 (size.bits_le.trans (by decide))

theorem toInt_emod : value.toInt % size.modulus = (value.toNat % size.modulus : Nat) := by
  have divides : (size.modulus : Int) ∣ (2 ^ 128 : Nat) :=
    Int.natCast_dvd_natCast.mpr (modulus_dvd size)
  rw [BitVec.toInt_eq_toNat_bmod, ← Int.emod_emod_of_dvd _ divides, Int.bmod_emod,
    Int.emod_emod_of_dvd _ divides, Int.natCast_emod]

theorem toInt_setWidth : (value.setWidth size.bits).toInt = size.truncate value.toInt := by
  have divides : 2 ^ size.bits ∣ 2 ^ 128 := size.modulus_eq ▸ modulus_dvd size
  rw [Size.truncate, Size.modulus_eq, BitVec.toInt_setWidth, BitVec.toInt_eq_toNat_bmod,
    Int.bmod_bmod_of_dvd divides]

theorem cut_eq : cut size value = (value.setWidth size.bits).signExtend 128 := by
  have small := size.bits_le
  have positive := size.bits_pos
  apply BitVec.eq_of_getLsbD_eq
  intro index inside
  rw [cut, BitVec.getLsbD_sshiftRight, BitVec.getLsbD_signExtend]
  by_cases low : index < size.bits
  · have reached : 128 - size.bits + index < 128 := by omega
    have offset : 128 - size.bits + index - (128 - size.bits) = index := by omega
    simp [inside, low, reached, offset]
  · have past : ¬ 128 - size.bits + index < 128 := by omega
    have top : 127 - (128 - size.bits) = size.bits - 1 := by omega
    have short : 128 - size.bits < 128 := by omega
    simp [inside, low, past, BitVec.msb_shiftLeft, BitVec.getMsbD, BitVec.msb_setWidth, positive,
      top, short]

theorem toInt_cut : (cut size value).toInt = size.truncate value.toInt := by
  rw [cut_eq, BitVec.toInt_signExtend_of_le (size.bits_le.trans (by decide)), toInt_setWidth]

theorem toNat_zeroExtend : (zeroExtend size value).toNat = value.toNat % size.modulus := by
  have bound : 2 ^ size.bits - 1 < 2 ^ 128 :=
    (Nat.sub_le _ 1).trans_lt (Nat.pow_lt_pow_right (by decide) (size.bits_le.trans_lt (by decide)))
  rw [zeroExtend, mask, BitVec.toNat_and, BitVec.toNat_ofNat, Nat.mod_eq_of_lt bound,
    Nat.and_two_pow_sub_one_eq_mod, Size.modulus_eq]

theorem toNat_zeroExtend_lt : (zeroExtend size value).toNat < 2 ^ 127 := by
  rw [toNat_zeroExtend]
  exact (Nat.mod_lt _ (by cases size <;> decide)).trans (by cases size <;> decide)

theorem toInt_zeroExtend : (zeroExtend size value).toInt = size.zeroExtend value.toInt := by
  rw [toInt_of_toNat_lt (toNat_zeroExtend_lt size value), toNat_zeroExtend, Size.zeroExtend, toInt_emod]

theorem sub_clz_le_iff (bits : Nat) : 128 - value.clz.toNat ≤ bits ↔ value.toNat < 2 ^ bits := by
  constructor
  · intro short
    exact BitVec.toNat_lt_two_pow_sub_clz.trans_le (Nat.pow_le_pow_right (by decide) short)
  · intro small
    by_contra long
    have nonzero : value ≠ 0#128 := by
      rintro rfl
      rw [BitVec.clz_eq_iff_eq_zero.mpr rfl] at long
      exact long (Nat.zero_le bits)
    have large := BitVec.two_pow_sub_clz_le_toNat_of_ne_zero (by decide) nonzero
    have power : 2 ^ bits ≤ 2 ^ (128 - 1 - value.clz.toNat) :=
      Nat.pow_le_pow_right (by decide) (by omega)
    omega

theorem bitLength_le_iff (bits : Nat) :
    bitLength value ≤ bits ↔ AsmLab.bitLength value.toInt ≤ bits := by
  have bound := value.isLt
  have power : ((2 ^ bits : Nat) : Int) = 2 ^ bits := by simp
  rw [AsmLab.bitLength_le_iff, bitLength, BitVec.slt, BitVec.toInt_zero]
  split
  · rename_i negative
    rw [decide_eq_true_eq] at negative
    rw [sub_clz_le_iff, BitVec.toNat_not]
    rw [BitVec.toInt_eq_toNat_cond] at negative ⊢
    split at negative <;> omega
  · rename_i nonneg
    rw [decide_eq_true_eq] at nonneg
    rw [sub_clz_le_iff]
    rw [BitVec.toInt_eq_toNat_cond] at nonneg ⊢
    split at nonneg <;> omega

theorem fits_eq : fits size value = size.fits value.toInt := by
  have positive := size.bits_pos
  have same := bitLength_le_iff value (size.bits - 1)
  rw [fits, Size.fits, decide_eq_decide]
  omega

theorem isOdd_eq_getLsbD : isOdd value = value.getLsbD 0 := by
  rw [isOdd, Bool.eq_iff_iff, beq_iff_eq]
  constructor
  · intro odd
    simpa using congrArg (·.getLsbD 0) odd
  · intro set
    apply BitVec.eq_of_getLsbD_eq
    intro index inside
    cases index with
    | zero => simp [set]
    | succ index => simp

theorem isOdd_eq : isOdd value = bitAt value.toInt 0 := by
  rw [isOdd_eq_getLsbD, bitAt_toInt_zero]

theorem isOdd_xor (left right : Int128) : isOdd (left ^^^ right) = (isOdd left != isOdd right) := by
  rw [isOdd_eq_getLsbD, isOdd_eq_getLsbD, isOdd_eq_getLsbD, BitVec.getLsbD_xor]

theorem toInt_ofWord (word : BitVec 64) : (ofWord word).toInt = word.toNat := by
  have bound := word.isLt
  have same : (ofWord word).toNat = word.toNat :=
    BitVec.toNat_setWidth_of_le (by decide)
  rw [toInt_of_toNat_lt (by omega), same]

theorem word_ofWord (word : BitVec 64) : (ofWord word).word = word := by
  rw [ofWord, Int128.word, BitVec.setWidth_setWidth_of_le _ (by decide), BitVec.setWidth_eq]

theorem word?_of_natCast {value : Int128} {number : Nat} (same : value.toInt = number)
    (small : number < 2 ^ 64) : value.word? = some number := by
  have whole := value.isLt
  have unsigned : value.toNat = number := by
    rw [BitVec.toInt_eq_toNat_cond] at same
    split at same <;> omega
  rw [word?, unsigned, if_pos small]

theorem word?_of_negSucc {value : Int128} {below : Nat} (same : value.toInt = Int.negSucc below) :
    value.word? = none := by
  rw [BitVec.toInt_eq_toNat_cond] at same
  split at same
  · cases same
  · exact if_neg (by omega)

end Int128

end AsmLab
