import AsmLab.Proofs.Exec.Int128
import AsmLab.Proofs.Machine.RegisterWords

/-! The two readings of a number at a width are the two usual choices of a number among those that are
congruent to it. A number fits exactly if it is its own signed reading. Shifting, masking and counting
the bits of 128-bit numbers lead to the same readings and the same decision. -/
namespace AsmLab

namespace Size

variable (size : Size) {value number : Int}

theorem truncate_modEq (value : Int) : size.truncate value ≡ value [ZMOD 2 ^ size.bits] := by
  rw [Int.ModEq, ← natCast_modulus, truncate, Int.bmod_emod]

theorem truncate_congr_modEq (same : number ≡ value [ZMOD 2 ^ size.bits]) :
    size.truncate number = size.truncate value := by
  rw [Int.ModEq, ← natCast_modulus] at same
  rw [truncate, truncate, ← Int.emod_bmod, same, Int.emod_bmod]

theorem eq_truncate_iff : number = size.truncate value ↔
    (-(2 : Int) ^ (size.bits - 1) ≤ number ∧ number < (2 : Int) ^ (size.bits - 1)) ∧
      number ≡ value [ZMOD 2 ^ size.bits] := by
  constructor
  · rintro rfl
    exact ⟨size.truncate_range value, size.truncate_modEq value⟩
  · rintro ⟨⟨low, high⟩, same⟩
    rw [← size.truncate_congr_modEq same, size.truncate_of_range low high]

theorem eq_zeroExtend_iff : number = size.zeroExtend value ↔
    (0 ≤ number ∧ number < (2 : Int) ^ size.bits) ∧ number ≡ value [ZMOD 2 ^ size.bits] := by
  have positive : (0 : Int) < 2 ^ size.bits := by positivity
  rw [zeroExtend, natCast_modulus]
  constructor
  · rintro rfl
    exact ⟨⟨Int.emod_nonneg _ positive.ne', Int.emod_lt_of_pos _ positive⟩, Int.mod_modEq _ _⟩
  · rintro ⟨⟨low, high⟩, same⟩
    rw [← Int.emod_eq_of_lt low high, same]

theorem zeroExtend_modEq (value : Int) : size.zeroExtend value ≡ value [ZMOD 2 ^ size.bits] :=
  (size.eq_zeroExtend_iff.mp rfl).2

theorem fits_iff_truncate_eq : size.fits value = true ↔ size.truncate value = value := by
  rw [fits_iff]
  constructor
  · rintro ⟨low, high⟩
    exact size.truncate_of_range low high
  · intro same
    exact same ▸ size.truncate_range value

theorem truncate_zeroExtend (value : Int) :
    size.truncate (size.zeroExtend value) = size.truncate value :=
  size.truncate_congr_modEq (size.zeroExtend_modEq value)

end Size

namespace Int128

theorem mask_eq_ofWord (size : Size) : mask size = ofWord size.mask := by
  cases size <;> rfl

theorem bitLength_eq (value : Int128) : bitLength value = AsmLab.bitLength value.toInt :=
  eq_of_forall_ge_iff fun bits => bitLength_le_iff value bits

end Int128

/-- Cutting a number to a width gives the one number that is congruent to it and signed of that width,
and extending it the one that is unsigned of that width. It fits if and only if cutting changes
nothing, that is, if it is in the signed range. Which of the two is done first does not matter. -/
theorem Size.residues (size : Size) :
    (∀ value number : Int, number = size.truncate value ↔
      (-(2 : Int) ^ (size.bits - 1) ≤ number ∧ number < (2 : Int) ^ (size.bits - 1)) ∧
        number ≡ value [ZMOD 2 ^ size.bits]) ∧
    (∀ value number : Int, number = size.zeroExtend value ↔
      (0 ≤ number ∧ number < (2 : Int) ^ size.bits) ∧ number ≡ value [ZMOD 2 ^ size.bits]) ∧
    (∀ value, (size.fits value = true ↔ size.truncate value = value) ∧
      (size.fits value = true ↔
        -(2 : Int) ^ (size.bits - 1) ≤ value ∧ value < (2 : Int) ^ (size.bits - 1))) ∧
    (∀ value, size.truncate (size.zeroExtend value) = size.truncate value ∧
      size.zeroExtend (size.truncate value) = size.zeroExtend value) ∧
    ∀ value : Int128,
      (Int128.cut size value).toInt = size.truncate value.toInt ∧
      (value &&& Int128.ofWord size.mask).toInt = size.zeroExtend value.toInt ∧
      Int128.bitLength value = bitLength value.toInt ∧
      Int128.fits size value = size.fits value.toInt := by
  refine ⟨fun _ _ => size.eq_truncate_iff, fun _ _ => size.eq_zeroExtend_iff,
    fun value => ⟨size.fits_iff_truncate_eq, size.fits_iff value⟩,
    fun value => ⟨size.truncate_zeroExtend value, size.zeroExtend_truncate value⟩,
    fun value => ⟨Int128.toInt_cut size value, ?_, value.bitLength_eq, Int128.fits_eq size value⟩⟩
  rw [← Int128.mask_eq_ofWord]
  exact Int128.toInt_zeroExtend size value

end AsmLab
