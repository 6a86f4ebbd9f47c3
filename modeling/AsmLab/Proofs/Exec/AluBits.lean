import AsmLab.Exec.Alu
import AsmLab.Proofs.Machine.SizeRange

/-! The arithmetic on signed numbers, told in bits. Every operation encodes the one on bit vectors
of its width: the number is that of the bits, carry is the overflow of their unsigned reading, and
overflow that of the signed one. -/
namespace AsmLab

namespace Alu

/-- The bits and all flags after an operation. -/
structure Outcome (width : Nat) where
  bits : BitVec width
  flags : Flags
  deriving DecidableEq, Repr

/-- Bits of which the zero and the sign flag tell. -/
def Outcome.of {width : Nat} (bits : BitVec width) (carry overflow : Bool) : Outcome width :=
  ⟨bits, { zero := bits == 0#(width), sign := bits.msb, overflow, carry }⟩

/-- A difference, its borrow and its signed overflow. -/
def Outcome.difference {width : Nat} (destination source : BitVec width) : Outcome width :=
  .of (destination - source) (destination.usubOverflow source) (destination.ssubOverflow source)

/-- The signed number is that of the bits, and the update leads to the flags. -/
structure Result.Encodes {size : Size} (result : Result) (flags : Flags)
    (outcome : Outcome size.bits) : Prop where
  value : result.value = outcome.bits.toInt
  flags : result.flags.apply flags = outcome.flags

variable {size : Size} (flags : Flags) (destination source : BitVec size.bits)

theorem zeroSign_apply (bits : BitVec size.bits) (overflow : Bool) (carry : Option Bool) :
    ({ FlagUpdate.zeroSign bits.toInt with overflow := some overflow, carry } : FlagUpdate).apply
      flags = (Outcome.of bits (carry.getD flags.carry) overflow).flags := by
  have zero : decide (bits.toInt = 0) = (bits == 0#(size.bits)) := by
    rw [← BitVec.toInt_zero (w := size.bits), decide_eq_decide.mpr BitVec.toInt_inj]
    rfl
  simp only [FlagUpdate.zeroSign, FlagUpdate.apply, Outcome.of, Option.getD_some, zero,
    BitVec.msb_eq_toInt]

/-- The signed overflow of an operation is that its exact result does not fit. -/
theorem not_fits (exact : Int) : (!size.fits exact) =
    (decide (exact ≥ 2 ^ (size.bits - 1)) || decide (exact < -2 ^ (size.bits - 1))) := by
  rw [Bool.eq_iff_iff, Bool.not_eq_true', ← Bool.not_eq_true, Size.fits_iff]
  simp only [Bool.or_eq_true, decide_eq_true_eq]
  omega

theorem arithmetic_encodes {exact : Int} {bits : BitVec size.bits} {carry : Option Bool}
    {carries overflow : Bool} (same : BitVec.ofInt size.bits exact = bits)
    (kept : carry.getD flags.carry = carries) (wide : (!size.fits exact) = overflow) :
    (arithmetic size exact carry).Encodes flags (.of bits carries overflow) := by
  subst same kept wide
  refine ⟨size.truncate_eq exact, ?_⟩
  simp only [arithmetic, size.truncate_eq]
  exact zeroSign_apply flags _ _ carry

/-- The sum carries if both top bits are set, or one of them is and the sum has lost it. -/
theorem uaddOverflow_eq : destination.uaddOverflow source =
    (decide (destination.toInt < 0) && decide (source.toInt < 0) ||
      (decide (destination.toInt < 0) != decide (source.toInt < 0)) &&
        decide (0 ≤ (destination + source).toInt)) := by
  have bound := destination.isLt
  have sourceBound := source.isLt
  have sum : (destination + source).toNat =
      if 2 ^ size.bits ≤ destination.toNat + source.toNat
      then destination.toNat + source.toNat - 2 ^ size.bits
      else destination.toNat + source.toNat := by
    rw [BitVec.toNat_add]
    split
    · rw [Nat.mod_eq_sub_mod ‹_›, Nat.mod_eq_of_lt (by omega)]
    · exact Nat.mod_eq_of_lt (by omega)
  rw [Bool.eq_iff_iff]
  simp only [BitVec.uaddOverflow, BitVec.toInt_eq_toNat_cond, sum, Bool.or_eq_true,
    Bool.and_eq_true, bne_iff_ne, ne_eq, decide_eq_decide, decide_eq_true_eq]
  split <;> split <;> split <;> split <;> omega

theorem usubOverflow_eq : destination.usubOverflow source =
    ((decide (destination.toInt < 0) == decide (source.toInt < 0)) &&
        decide (destination.toInt < source.toInt) ||
      decide (0 ≤ destination.toInt) && decide (source.toInt < 0)) := by
  have bound := destination.isLt
  have sourceBound := source.isLt
  rw [Bool.eq_iff_iff]
  simp only [BitVec.usubOverflow, BitVec.toInt_eq_toNat_cond, Bool.or_eq_true, Bool.and_eq_true,
    decide_eq_true_eq, beq_iff_eq, decide_eq_decide]
  split <;> split <;> omega

theorem add_encodes : (add size destination.toInt source.toInt).Encodes flags
    (.of (destination + source) (destination.uaddOverflow source)
      (destination.saddOverflow source)) := by
  refine arithmetic_encodes flags ?_ ?_ ?_
  · rw [BitVec.ofInt_add, BitVec.ofInt_toInt, BitVec.ofInt_toInt]
  · rw [uaddOverflow_eq, size.truncate_eq, BitVec.ofInt_add, BitVec.ofInt_toInt,
      BitVec.ofInt_toInt]
    rfl
  · rw [not_fits]
    rfl

theorem ofInt_sub (width : Nat) (left right : Int) :
    BitVec.ofInt width (left - right) = BitVec.ofInt width left - BitVec.ofInt width right := by
  rw [sub_eq_add_neg, BitVec.ofInt_add, BitVec.ofInt_neg, BitVec.sub_eq_add_neg]

theorem sub_encodes : (sub size destination.toInt source.toInt).Encodes flags
    (.difference destination source) := by
  refine arithmetic_encodes flags ?_ ?_ ?_
  · rw [ofInt_sub, BitVec.ofInt_toInt, BitVec.ofInt_toInt]
  · rw [usubOverflow_eq]
    rfl
  · rw [not_fits]
    rfl

theorem imul_encodes : (imul size destination.toInt source.toInt).Encodes flags
    (.of (destination * source) (destination.smulOverflow source)
      (destination.smulOverflow source)) := by
  have wide : (!size.fits (destination.toInt * source.toInt)) = destination.smulOverflow source :=
    not_fits _
  refine arithmetic_encodes flags ?_ wide wide
  rw [BitVec.ofInt_mul, BitVec.ofInt_toInt, BitVec.ofInt_toInt]

theorem inc_encodes : (inc size destination.toInt).Encodes flags
    (.of (destination + 1#(size.bits)) flags.carry (destination.saddOverflow 1#(size.bits))) := by
  refine arithmetic_encodes flags ?_ rfl ?_
  · rw [BitVec.ofInt_add, BitVec.ofInt_toInt]
    rfl
  · rw [not_fits, BitVec.saddOverflow, BitVec.toInt_one size.one_lt_bits]

theorem dec_encodes : (dec size destination.toInt).Encodes flags
    (.of (destination - 1#(size.bits)) flags.carry (destination.ssubOverflow 1#(size.bits))) := by
  refine arithmetic_encodes flags ?_ rfl ?_
  · rw [ofInt_sub, BitVec.ofInt_toInt]
    rfl
  · rw [not_fits, BitVec.ssubOverflow, BitVec.toInt_one size.one_lt_bits]

theorem neg_encodes : (neg size destination.toInt).Encodes flags
    (.of (0#(size.bits) - destination) (destination != 0#(size.bits))
      ((0#(size.bits)).ssubOverflow destination)) := by
  refine arithmetic_encodes flags ?_ ?_ ?_
  · rw [BitVec.ofInt_neg, BitVec.ofInt_toInt, BitVec.zero_sub]
  · have zero : (destination.toInt = 0) = (destination = 0#(size.bits)) := by
      rw [← BitVec.toInt_zero, BitVec.toInt_inj]
    simp only [ne_eq, zero, decide_not, Option.getD_some]
    rfl
  · rw [not_fits, BitVec.ssubOverflow, BitVec.toInt_zero, Int.zero_sub]

theorem logical_encodes
    (operation : ∀ {width : Nat}, BitVec width → BitVec width → BitVec width)
    (destination source : BitVec size.bits) :
    (logical operation size destination.toInt source.toInt).Encodes flags
      (.of (operation destination source) false false) := by
  simp only [logical, BitVec.ofInt_toInt]
  exact ⟨rfl, zeroSign_apply flags _ false (some false)⟩

theorem not_encodes : (not size destination.toInt).Encodes flags ⟨~~~destination, flags⟩ := by
  simp only [not, BitVec.ofInt_toInt]
  exact ⟨rfl, rfl⟩

/-- A shift count is the unsigned number in the low six bits of a byte. -/
theorem shiftCount_toInt (byte : BitVec Size.byte.bits) :
    shiftCount byte.toInt = byte.toNat % 64 := by
  have bound : byte.toNat < 256 := byte.isLt
  have unsigned : Size.byte.zeroExtend byte.toInt = byte.toNat := by
    rw [Size.zeroExtend, BitVec.toInt_eq_toNat_bmod]
    exact (Int.bmod_emod ..).trans
      (Int.emod_eq_of_lt (Int.natCast_nonneg _) (Int.ofNat_lt.mpr bound))
  rw [shiftCount, unsigned, Int.toNat_natCast]

end Alu

end AsmLab
