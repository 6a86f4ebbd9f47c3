import AsmLab.Proofs.Exec.FixedWidth
import AsmLab.Proofs.Exec.Footprint
import AsmLab.Proofs.Machine.NumberBytes

/-! Numbers of 128 bits are wide enough. Every operand is a number of 64 bits, so that what is
calculated of it stays inside, and evaluation gives the machine or the fault that it gives over the
integers. -/
namespace AsmLab.FixedWidth

open Int128 (zeroExtend fits isOdd ofWord)

/-- The lowest number divided by minus one, which is one more than the highest number. -/
def Calculation.escaping : Calculation :=
  .quotient (-2 ^ 127) (-1)

/-- The exact result is a number of 128 bits, and a shift is by fewer bits than that. -/
structure Calculation.Inside (calculation : Calculation) : Prop where
  exact : calculation.exact ∈ Int128.range
  amount : ∀ amount ∈ calculation.amount?, amount ≤ 127

/-- Two runs end with related results or with one fault. -/
inductive EndsLike {Value Exact : Type} (related : Value → Exact → Prop) :
    Except FaultCause Value → Except FaultCause Exact → Prop where
  | ok {value : Value} {exact : Exact} (same : related value exact) :
      EndsLike related (.ok value) (.ok exact)
  | error (cause : FaultCause) : EndsLike related (.error cause) (.error cause)

/-- A run ends like the one over the integers, and all its calculations stay inside the 128 bits but
for one, which ends both runs. -/
structure Traced.Agrees {Value Exact : Type} (related : Value → Exact → Prop)
    (traced : Traced Value) (run : Except FaultCause Exact) : Prop where
  outcome : EndsLike related traced.outcome run
  calculations : ∀ calculation ∈ traced.calculations, calculation.Inside ∨
    calculation = .escaping ∧ run = .error .divisionOverflow

namespace Traced.Agrees

variable {Value Exact Next ExactNext : Type} {related : Value → Exact → Prop}
  {relatedNext : Next → ExactNext → Prop} {traced : Traced Value} {run : Except FaultCause Exact}

theorem pure {value : Value} {exact : Exact} (same : related value exact) :
    Agrees related (Pure.pure value) (.ok exact) :=
  ⟨.ok same, nofun⟩

theorem fault (cause : FaultCause) :
    Agrees related (Traced.fault cause) (.error cause) :=
  ⟨.error cause, nofun⟩

theorem imp {weaker : Value → Exact → Prop} (agrees : Agrees related traced run)
    (weaken : ∀ value exact, run = .ok exact → related value exact → weaker value exact) :
    Agrees weaker traced run := by
  obtain ⟨outcome, noted⟩ := traced
  obtain ⟨ends, inside⟩ := agrees
  cases ends with
  | error cause => exact ⟨.error cause, inside⟩
  | ok same => exact ⟨.ok (weaken _ _ rfl same), inside⟩

/-- Runs that agree go on with runs that agree. A fault of the first is one of the whole, so that the
escaping calculation ends that too. -/
theorem bind_of_ok {next : Value → Traced Next} {exactNext : Exact → Except FaultCause ExactNext}
    (first : Agrees related traced run)
    (rest : ∀ value exact, run = .ok exact → related value exact →
      Agrees relatedNext (next value) (exactNext exact)) :
    Agrees relatedNext (traced >>= next) (run >>= exactNext) := by
  obtain ⟨outcome, noted⟩ := traced
  obtain ⟨ends, inside⟩ := first
  cases ends with
  | error cause =>
    refine ⟨.error cause, fun calculation listed => ?_⟩
    rcases inside calculation listed with stays | ⟨escapes, fails⟩
    · exact .inl stays
    · cases fails
      exact .inr ⟨escapes, rfl⟩
  | @ok value exact same =>
    obtain ⟨endsNext, insideNext⟩ := rest value exact rfl same
    refine ⟨endsNext, List.forall_mem_append.mpr ⟨fun calculation listed => ?_, insideNext⟩⟩
    rcases inside calculation listed with stays | ⟨_, fails⟩
    · exact .inl stays
    · cases fails

theorem bind {next : Value → Traced Next} {exactNext : Exact → Except FaultCause ExactNext}
    (first : Agrees related traced run)
    (rest : ∀ value exact, related value exact →
      Agrees relatedNext (next value) (exactNext exact)) :
    Agrees relatedNext (traced >>= next) (run >>= exactNext) :=
  first.bind_of_ok fun value exact _ => rest value exact

/-- A calculation that the integers have in the middle of a term. -/
theorem step {next : Value → Traced Next} {exact : Exact}
    {runNext : Except FaultCause ExactNext} (first : Agrees related traced (.ok exact))
    (rest : ∀ value, related value exact → Agrees relatedNext (next value) runNext) :
    Agrees relatedNext (traced >>= next) runNext := by
  have both : Agrees relatedNext (traced >>= next) (Except.ok exact >>= fun _ => runNext) := by
    refine first.bind_of_ok fun value again named same => ?_
    obtain rfl := Except.ok.inj named
    exact rest value same
  exact both

/-- What comes after a fault does not matter. -/
theorem fails {next : Value → Traced Next} {cause : FaultCause}
    (first : Agrees (fun (_ : Value) (_ : Unit) => False) traced (.error cause)) :
    Agrees relatedNext (traced >>= next) (.error cause) :=
  have both : Agrees relatedNext (traced >>= next) (Except.error cause >>= fun (_ : Unit) => .error cause) :=
    first.bind fun _ _ impossible => impossible.elim
  both

end Traced.Agrees

/-- A number that stands for an integer. -/
def Means (value : Int128) (exact : Int) : Prop :=
  value.toInt = exact

theorem note_agrees {calculation : Calculation} {value : Int128}
    (same : value.toInt = calculation.exact) (amount : ∀ amount ∈ calculation.amount?, amount ≤ 127) :
    (Traced.note calculation value).Agrees Means (.ok calculation.exact) := by
  refine ⟨.ok same, List.forall_mem_singleton.mpr (.inl ⟨?_, amount⟩)⟩
  rw [← same]
  exact value.toInt_mem_range

section Numbers

variable {left right value : Int128} {amount : Nat} {size : Size}

theorem mem_quad_range {exact : Int} :
    exact ∈ Size.quad.range ↔ -2 ^ 63 ≤ exact ∧ exact < 2 ^ 63 :=
  Iff.rfl

theorem range_subset (size : Size) : size.range ⊆ Size.quad.range := by
  cases size <;> intro exact inside <;> obtain ⟨low, high⟩ := inside <;>
    simp only [mem_quad_range, Size.bits, Size.bytes] at * <;> omega

theorem truncate_mem_range (size : Size) (exact : Int) : size.truncate exact ∈ Size.quad.range :=
  range_subset size (size.truncate_range exact)

/-- A high half that is shifted as far as it can be has room for a low one. -/
theorem joined_mem_range {high : Int} {low : Nat} (inside : high ∈ Size.quad.range)
    (few : amount ≤ 64) (small : low < 2 ^ amount) : high <<< amount + low ∈ Int128.range := by
  obtain ⟨least, greatest⟩ := mem_quad_range.mp inside
  have power : (2 : Int) ^ amount ≤ 2 ^ 64 := pow_le_pow_right₀ (by decide) few
  have below : (low : Int) < 2 ^ amount := by exact_mod_cast small
  have nonneg : (0 : Int) ≤ low := Int.natCast_nonneg low
  rw [Int.shiftLeft_eq]
  constructor
  · nlinarith
  · nlinarith

theorem shiftLeft_mem_range {exact : Int} (inside : exact ∈ Size.quad.range) (few : amount ≤ 64) :
    exact <<< amount ∈ Int128.range := by
  simpa using joined_mem_range inside few (Nat.two_pow_pos amount)

theorem product_mem_range {first second : Int} (firstInside : first ∈ Size.quad.range)
    (secondInside : second ∈ Size.quad.range) : first * second ∈ Int128.range := by
  obtain ⟨firstLow, firstHigh⟩ := mem_quad_range.mp firstInside
  obtain ⟨secondLow, secondHigh⟩ := mem_quad_range.mp secondInside
  have bound : |first * second| ≤ 2 ^ 63 * 2 ^ 63 := by
    rw [abs_mul]
    exact mul_le_mul (abs_le.mpr ⟨firstLow, firstHigh.le⟩) (abs_le.mpr ⟨secondLow, secondHigh.le⟩)
      (abs_nonneg _) (by positivity)
  obtain ⟨low, high⟩ := abs_le.mp bound
  constructor <;> omega

theorem add_agrees (inside : left.toInt + right.toInt ∈ Int128.range) :
    (add left right).Agrees Means (.ok (left.toInt + right.toInt)) :=
  note_agrees (Int128.toInt_add inside) nofun

theorem sub_agrees (inside : left.toInt - right.toInt ∈ Int128.range) :
    (sub left right).Agrees Means (.ok (left.toInt - right.toInt)) := by
  refine note_agrees ?_ nofun
  have exact := Int128.toInt_ofInt inside
  rwa [Alu.ofInt_sub, BitVec.ofInt_toInt, BitVec.ofInt_toInt] at exact

theorem mul_agrees (inside : left.toInt * right.toInt ∈ Int128.range) :
    (mul left right).Agrees Means (.ok (left.toInt * right.toInt)) := by
  refine note_agrees ?_ nofun
  have exact := Int128.toInt_ofInt inside
  rwa [BitVec.ofInt_mul, BitVec.ofInt_toInt, BitVec.ofInt_toInt] at exact

theorem neg_agrees (inside : -value.toInt ∈ Int128.range) :
    (neg value).Agrees Means (.ok (-value.toInt)) := by
  refine note_agrees ?_ nofun
  have exact := Int128.toInt_ofInt inside
  rwa [BitVec.ofInt_neg, BitVec.ofInt_toInt] at exact

theorem shiftLeft_agrees (inside : value.toInt ∈ Size.quad.range) (few : amount ≤ 64) :
    (shiftLeft value amount).Agrees Means (.ok (value.toInt <<< amount)) := by
  refine note_agrees ?_ ?_
  · have exact := Int128.toInt_ofInt (shiftLeft_mem_range inside few)
    rwa [AsmLab.BitVec.ofInt_shiftLeft] at exact
  · intro _ shifts
    obtain rfl := Option.some.inj shifts
    omega

theorem shiftRight_agrees (value : Int128) (few : amount ≤ 127) :
    (shiftRight value amount).Agrees Means (.ok (value.toInt >>> amount)) := by
  refine note_agrees BitVec.toInt_sshiftRight ?_
  intro _ shifts
  obtain rfl := Option.some.inj shifts
  exact few

theorem truncate_agrees (value : Int128) (size : Size) :
    (truncate value size).Agrees Means (.ok (size.truncate value.toInt)) := by
  refine note_agrees (Int128.toInt_cut size value) ?_
  intro _ shifts
  obtain rfl := Option.some.inj shifts
  have positive := size.bits_pos
  omega

/-- A single bit, by shifting it to the lowest place. -/
theorem bit_agrees (value : Int128) (few : amount ≤ 127) :
    (bit value amount).Agrees Eq (.ok (bitAt value.toInt amount)) := by
  refine (shiftRight_agrees value few).step fun shifted means => .pure ?_
  rw [Int128.isOdd_eq, means, bitAt_shiftRight, Nat.add_zero]

theorem and_eq_zero_of_shifted {high low : Int128} (small : low.toNat < 2 ^ amount) :
    high <<< amount &&& low = 0#128 := by
  apply BitVec.eq_of_getLsbD_eq
  intro index bound
  rw [BitVec.getLsbD_and, BitVec.getLsbD_shiftLeft]
  by_cases below : index < amount
  · simp [below]
  · have clear : low.getLsbD index = false := by
      rw [BitVec.getLsbD, Nat.testBit_lt_two_pow]
      exact small.trans_le (Nat.pow_le_pow_right (by decide) (Nat.le_of_not_lt below))
    simp [clear]

/-- Halves that share no bit are added by joining their bits. -/
theorem join_agrees {shifted low : Int128} {high : Int} (means : shifted.toInt = high <<< amount)
    (inside : high ∈ Size.quad.range) (few : amount ≤ 64) (small : low.toNat < 2 ^ amount) :
    (join shifted low).Agrees Means (.ok (high <<< amount + low.toNat)) := by
  have unsigned : low.toInt = low.toNat :=
    Int128.toInt_of_toNat_lt (small.trans_le (Nat.pow_le_pow_right (by decide) (by omega)))
  have whole : shifted.toInt + low.toInt ∈ Int128.range := by
    rw [means, unsigned]
    exact joined_mem_range inside few small
  have exact : (BitVec.ofInt 128 high).toInt = high :=
    Int128.toInt_ofInt (by
      obtain ⟨least, greatest⟩ := mem_quad_range.mp inside
      constructor <;> omega)
  have moved : shifted = BitVec.ofInt 128 high <<< amount := by
    rw [← AsmLab.BitVec.ofInt_shiftLeft, exact, ← means, BitVec.ofInt_toInt]
  have sum : (shifted ||| low).toInt = shifted.toInt + low.toInt := by
    rw [← Int128.toInt_add whole, BitVec.add_eq_or_of_and_eq_zero]
    rw [moved]
    exact and_eq_zero_of_shifted small
  rw [← means, ← unsigned]
  exact note_agrees sum nofun

/-- The quotient that is no number of 128 bits is noticed before it wraps around. -/
theorem checkedDiv_escapes {divisor : Int128} (lowest : value = BitVec.intMin 128)
    (minusOne : divisor = -1#128) :
    (checkedDiv value divisor).Agrees (fun (_ : Int128) (_ : Unit) => False)
      (.error .divisionOverflow) := by
  subst lowest minusOne
  exact ⟨.error _, List.forall_mem_singleton.mpr (.inr ⟨rfl, rfl⟩)⟩

theorem checkedDiv_agrees {divisor : Int128} (nonzero : divisor ≠ 0#128)
    (stays : ¬ (value = BitVec.intMin 128 ∧ divisor = -1#128)) :
    (checkedDiv value divisor).Agrees Means (.ok (value.toInt.tdiv divisor.toInt)) := by
  rw [checkedDiv, if_neg (not_or.mpr ⟨nonzero, stays⟩)]
  exact note_agrees (BitVec.toInt_sdiv_of_ne_or_ne _ _ (not_and_or.mp stays)) nofun

theorem checkedRem_agrees {divisor : Int128} (nonzero : divisor ≠ 0#128)
    (stays : ¬ (value = BitVec.intMin 128 ∧ divisor = -1#128)) :
    (checkedRem value divisor).Agrees Means (.ok (value.toInt.tmod divisor.toInt)) := by
  rw [checkedRem, if_neg (not_or.mpr ⟨nonzero, stays⟩)]
  exact note_agrees (BitVec.toInt_srem _ _) nofun

end Numbers

/-- A result that stands for the one over the integers. -/
structure Result.Stands (result : Result) (exact : Alu.Result) : Prop where
  value : result.value.toInt = exact.value
  flags : result.flags = exact.flags

section Operations

variable {size : Size} {destination source value : Int128} {count : Nat}

theorem slt_zero (value : Int128) : value.slt 0#128 = decide (value.toInt < 0) := by
  rw [BitVec.slt, BitVec.toInt_zero]

theorem beq_zero (value : Int128) : (value == 0#128) = decide (value.toInt = 0) := by
  rw [← BitVec.toInt_zero (w := 128), decide_eq_decide.mpr BitVec.toInt_inj]
  rfl

theorem zeroSign_eq (value : Int128) : zeroSign value = FlagUpdate.zeroSign value.toInt := by
  rw [zeroSign, slt_zero, beq_zero, FlagUpdate.zeroSign]

theorem arithmetic_agrees (size : Size) (exact : Int128) (carry : Option Bool) :
    (arithmetic size exact carry).Agrees Result.Stands
      (.ok (Alu.arithmetic size exact.toInt carry)) := by
  refine (truncate_agrees exact size).step fun value means => .pure ⟨means, ?_⟩
  rw [zeroSign_eq, means, Int128.fits_eq]
  rfl

theorem sumOf_agrees (destinationInside : destination.toInt ∈ Size.quad.range)
    (sourceInside : source.toInt ∈ Size.quad.range) :
    (sumOf size destination source).Agrees Result.Stands
      (.ok (Alu.add size destination.toInt source.toInt)) := by
  obtain ⟨destinationLow, destinationHigh⟩ := mem_quad_range.mp destinationInside
  obtain ⟨sourceLow, sourceHigh⟩ := mem_quad_range.mp sourceInside
  have inside : destination.toInt + source.toInt ∈ Int128.range := by constructor <;> omega
  refine (add_agrees inside).step fun exact sum => ?_
  refine (truncate_agrees exact size).step fun value cut => ?_
  have stands := arithmetic_agrees size exact
  rw [sum] at stands cut
  have sign : (!value.slt 0#128) = decide (0 ≤ size.truncate (destination.toInt + source.toInt)) := by
    rw [slt_zero, cut, ← decide_not, decide_eq_decide, not_lt]
  rw [slt_zero, slt_zero, sign]
  exact stands _

theorem differenceOf_agrees (destinationInside : destination.toInt ∈ Size.quad.range)
    (sourceInside : source.toInt ∈ Size.quad.range) :
    (differenceOf size destination source).Agrees Result.Stands
      (.ok (Alu.sub size destination.toInt source.toInt)) := by
  obtain ⟨destinationLow, destinationHigh⟩ := mem_quad_range.mp destinationInside
  obtain ⟨sourceLow, sourceHigh⟩ := mem_quad_range.mp sourceInside
  have inside : destination.toInt - source.toInt ∈ Int128.range := by constructor <;> omega
  refine (sub_agrees inside).step fun exact difference => ?_
  have stands := arithmetic_agrees size exact
  rw [difference] at stands
  have sign : (!destination.slt 0#128) = decide (0 ≤ destination.toInt) := by
    rw [slt_zero, ← decide_not, decide_eq_decide, not_lt]
  rw [sign, slt_zero, slt_zero, BitVec.slt]
  exact stands _

theorem productOf_agrees (destinationInside : destination.toInt ∈ Size.quad.range)
    (sourceInside : source.toInt ∈ Size.quad.range) :
    (productOf size destination source).Agrees Result.Stands
      (.ok (Alu.imul size destination.toInt source.toInt)) := by
  refine (mul_agrees (product_mem_range destinationInside sourceInside)).step fun exact product => ?_
  have stands := arithmetic_agrees size exact
  rw [product] at stands
  rw [Int128.fits_eq, product]
  exact stands _

theorem increment_agrees (inside : destination.toInt ∈ Size.quad.range) :
    (increment size destination).Agrees Result.Stands (.ok (Alu.inc size destination.toInt)) := by
  obtain ⟨low, high⟩ := mem_quad_range.mp inside
  have one : (1#128).toInt = 1 := rfl
  have inside : destination.toInt + (1#128).toInt ∈ Int128.range := by
    rw [one]
    constructor <;> omega
  refine (add_agrees inside).step fun exact sum => ?_
  have stands := arithmetic_agrees size exact none
  rwa [sum, one] at stands

theorem decrement_agrees (inside : destination.toInt ∈ Size.quad.range) :
    (decrement size destination).Agrees Result.Stands (.ok (Alu.dec size destination.toInt)) := by
  obtain ⟨low, high⟩ := mem_quad_range.mp inside
  have minusOne : (-1#128).toInt = -1 := rfl
  have inside : destination.toInt + (-1#128).toInt ∈ Int128.range := by
    rw [minusOne]
    constructor <;> omega
  refine (add_agrees inside).step fun exact sum => ?_
  have stands := arithmetic_agrees size exact none
  rwa [sum, minusOne] at stands

theorem negationOf_agrees (inside : destination.toInt ∈ Size.quad.range) :
    (negationOf size destination).Agrees Result.Stands (.ok (Alu.neg size destination.toInt)) := by
  obtain ⟨low, high⟩ := mem_quad_range.mp inside
  have inside : -destination.toInt ∈ Int128.range := by constructor <;> omega
  refine (neg_agrees inside).step fun exact negated => ?_
  have stands := arithmetic_agrees size exact
  rw [negated] at stands
  have nonzero : (destination != 0#128) = decide (destination.toInt ≠ 0) := by
    rw [bne, beq_zero, decide_not]
  rw [nonzero]
  exact stands _

theorem ofInt_toInt (size : Size) (value : Int128) :
    BitVec.ofInt size.bits value.toInt = value.setWidth size.bits := by
  rw [← BitVec.toInt_inj, Int128.toInt_setWidth, size.truncate_eq]

/-- The low bits of what an operation on bits gives are those of its operands, combined. -/
theorem logical_agrees (combine : ∀ {width : Nat}, BitVec width → BitVec width → BitVec width)
    (bitwise : ∀ width (left right : Int128),
      (combine left right).setWidth width = combine (left.setWidth width) (right.setWidth width))
    (size : Size) (destination source : Int128) :
    (logical combine size destination source).Agrees Result.Stands
      (.ok (Alu.logical combine size destination.toInt source.toInt)) := by
  refine (truncate_agrees (combine destination source) size).step fun value means => ?_
  rw [← Int128.toInt_setWidth, bitwise, ← ofInt_toInt, ← ofInt_toInt] at means
  refine .pure ⟨means, ?_⟩
  rw [zeroSign_eq, means]
  rfl

theorem conjunction_agrees (size : Size) (destination source : Int128) :
    (conjunction size destination source).Agrees Result.Stands
      (.ok (Alu.and size destination.toInt source.toInt)) :=
  logical_agrees (· &&& ·) (fun _ _ _ => BitVec.setWidth_and) size destination source

theorem disjunction_agrees (size : Size) (destination source : Int128) :
    (disjunction size destination source).Agrees Result.Stands
      (.ok (Alu.or size destination.toInt source.toInt)) :=
  logical_agrees (· ||| ·) (fun _ _ _ => BitVec.setWidth_or) size destination source

theorem exclusion_agrees (size : Size) (destination source : Int128) :
    (exclusion size destination source).Agrees Result.Stands
      (.ok (Alu.xor size destination.toInt source.toInt)) :=
  logical_agrees (· ^^^ ·) (fun _ _ _ => BitVec.setWidth_xor) size destination source

theorem complement_agrees (size : Size) (destination : Int128) :
    (complement size destination).Agrees Result.Stands
      (.ok (Alu.not size destination.toInt)) := by
  refine (truncate_agrees (~~~destination) size).step fun value means => ?_
  rw [← Int128.toInt_setWidth, BitVec.setWidth_not (size.bits_le.trans (by decide)),
    ← ofInt_toInt] at means
  exact .pure ⟨means, rfl⟩

theorem shiftCount_eq (source : Int128) : shiftCount source = Alu.shiftCount source.toInt := by
  have small := Int128.toNat_zeroExtend_lt .byte source
  have unsigned : (zeroExtend .byte source).msb = false :=
    BitVec.msb_eq_false_iff_two_mul_lt.mpr (by omega)
  have positive : (64#128).msb = false := by decide
  rw [shiftCount, BitVec.srem_eq, unsigned, positive, Alu.shiftCount, ← Int128.toInt_zeroExtend,
    Int128.toInt_of_toNat_lt small, Int.toNat_natCast]
  exact BitVec.toNat_umod

theorem topChanges_agrees (size : Size) (destination : Int128) (count : Nat) :
    (topChanges size destination count).Agrees Eq
      (.ok (decide (count = 1) &&
        (bitAt (size.zeroExtend destination.toInt) (size.bits - 1) !=
          bitAt (size.zeroExtend destination.toInt) (size.bits - 2)))) := by
  have small := size.bits_le
  by_cases single : count = 1
  · rw [topChanges, if_pos single]
    refine (shiftRight_agrees _ (by omega)).step fun top topMeans => ?_
    refine (shiftRight_agrees _ (by omega)).step fun next nextMeans => .pure ?_
    rw [Int128.isOdd_xor, Int128.isOdd_eq, Int128.isOdd_eq, topMeans, nextMeans, bitAt_shiftRight,
      bitAt_shiftRight, Int128.toInt_zeroExtend, decide_eq_true single]
    rfl
  · rw [topChanges, if_neg single, decide_eq_false single]
    exact .pure rfl

theorem leftCarry_agrees (size : Size) (destination : Int128) (count : Nat) :
    (leftCarry size destination count).Agrees Eq
      (.ok (Alu.shiftCarry count (decide (count ≤ size.bits) &&
        bitAt (size.zeroExtend destination.toInt) (size.bits - count)))) := by
  have small := size.bits_le
  by_cases none : count = 0
  · rw [leftCarry, if_pos none, Alu.shiftCarry, if_pos none]
    exact .pure rfl
  rw [leftCarry, if_neg none, Alu.shiftCarry, if_neg none]
  by_cases inside : count ≤ size.bits
  · rw [if_pos inside, decide_eq_true inside, Bool.true_and]
    refine (bit_agrees _ (by omega)).step fun carry same => .pure ?_
    rw [same, Int128.toInt_zeroExtend]
  · rw [if_neg inside, decide_eq_false inside]
    exact .pure rfl

theorem rightCarry_agrees (contents : Int128) (few : count ≤ 63) :
    (rightCarry count contents).Agrees Eq
      (.ok (Alu.shiftCarry count (bitAt contents.toInt (count - 1)))) := by
  by_cases none : count = 0
  · rw [rightCarry, if_pos none, Alu.shiftCarry, if_pos none]
    exact .pure rfl
  rw [rightCarry, if_neg none, Alu.shiftCarry, if_neg none]
  refine (bit_agrees _ (by omega)).step fun carry same => .pure ?_
  rw [same]

theorem leftShift_agrees (inside : destination.toInt ∈ Size.quad.range) (few : count ≤ 63) :
    (leftShift size destination count).Agrees Result.Stands
      (.ok (Alu.shl size destination.toInt count)) := by
  refine (shiftLeft_agrees inside (by omega)).step fun shifted means => ?_
  refine (truncate_agrees shifted size).step fun value cut => ?_
  refine (topChanges_agrees size destination count).step fun overflow changes => ?_
  refine (leftCarry_agrees size destination count).step fun carry leaves => ?_
  rw [means] at cut
  refine .pure ⟨cut, ?_⟩
  rw [zeroSign_eq, cut, changes, leaves]
  rfl

theorem rightShift_agrees (size : Size) (contents : Int128) (few : count ≤ 63) :
    (rightShift size count contents).Agrees Result.Stands
      (.ok (Alu.shiftRight size contents.toInt count)) := by
  refine (shiftRight_agrees contents (by omega)).step fun shifted means => ?_
  refine (truncate_agrees shifted size).step fun value cut => ?_
  refine (rightCarry_agrees contents few).step fun carry leaves => ?_
  rw [means] at cut
  refine .pure ⟨cut, ?_⟩
  rw [zeroSign_eq, cut, leaves]
  rfl

theorem unsignedShift_agrees (destination : Int128) (few : count ≤ 63) :
    (unsignedShift size destination count).Agrees Result.Stands
      (.ok (Alu.shr size destination.toInt count)) := by
  have shifted := rightShift_agrees size (zeroExtend size destination) few
  rwa [Int128.toInt_zeroExtend] at shifted

end Operations

end AsmLab.FixedWidth
