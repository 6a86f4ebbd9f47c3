import AsmLab.Proofs.Machine.SizeRange
import AsmLab.Proofs.Source.NumeralText
import AsmLab.Proofs.Source.WellFormed

/-! Immediates and displacements read back from their canonical text. Every immediate that fits does;
of the displacements all but the lowest do. -/
namespace AsmLab

open Source

theorem Numeral.isIdent_of_isDigit {base : Nat} {char : Char} (digit : isDigit base char = true) :
    isIdent char = true := by
  have found : (digit? char).isSome = true := by
    cases read : digit? char with
    | none => simp [isDigit, digitBelow?, read] at digit
    | some _ => rfl
  have alphanumeric : char.isAlphanum = true := by
    unfold digit? at found
    simp only [Char.isAlphanum, Char.isAlpha, Char.isUpper, Char.isLower, Char.isDigit,
      Bool.or_eq_true, Bool.and_eq_true, decide_eq_true_eq]
    split at found
    · rename_i decimal
      exact .inr decimal
    · split at found
      · rename_i lower
        exact .inl (.inr ⟨lower.1, Char.le_trans lower.2 (by decide)⟩)
      · split at found
        · rename_i upper
          exact .inl (.inl ⟨upper.1, Char.le_trans upper.2 (by decide)⟩)
        · cases found
  simp [isIdent, alphanumeric]

theorem splitMinus_sign (negative : Bool) {digits : List Char} (unsigned : '-' ∉ digits) :
    splitMinus ((if negative then ['-'] else []) ++ digits) = (negative, digits) := by
  cases negative with
  | true => rfl
  | false =>
    cases digits with
    | nil => rfl
    | cons head tail =>
      have digit : head ≠ '-' := fun same => unsigned (by simp [same])
      simp only [Bool.false_eq_true, ↓reduceIte, List.nil_append]
      unfold splitMinus
      split
      · rename_i same
        exact absurd (List.cons.inj same).1 digit
      · rfl

theorem not_mem_of_isNumeral {base : Nat} {digits : List Char} (char : Char)
    (numeral : Numeral.isNumeral base digits = true) (other : isIdent char = false) :
    char ∉ digits := by
  intro member
  have ident := Numeral.isIdent_of_isDigit (Numeral.isDigit_of_mem numeral member)
  simp [ident] at other

theorem afterHexMarker?_decimal {digits : List Char} (numeral : Numeral.isNumeral 10 digits = true) :
    afterHexMarker? digits = none := by
  unfold afterHexMarker?
  split
  · exact absurd (Numeral.isDigit_of_mem numeral (show 'x' ∈ _ by simp)) (by decide)
  · exact absurd (Numeral.isDigit_of_mem numeral (show 'X' ∈ _ by simp)) (by decide)
  · rfl

/-- The text of an immediate without its dollar and its sign. -/
def Immediate.digits (immediate : Immediate) : List Char :=
  match immediate.radix with
  | .decimal => Nat.toDigits 10 immediate.value.natAbs
  | .hex digits =>
    '0' :: 'x' :: List.leftpad digits '0' (Nat.toDigits 16 immediate.value.natAbs)

theorem Immediate.toList_text (immediate : Immediate) :
    immediate.text.toList =
      '$' :: ((if decide (immediate.value < 0) then ['-'] else []) ++ immediate.digits) := by
  unfold Immediate.text Immediate.digits
  by_cases negative : immediate.value < 0 <;> cases immediate.radix <;>
    simp [negative, Numeral.decimal, Numeral.hex, Numeral.padLeft]

theorem Immediate.isIdent_of_mem_digits {immediate : Immediate} {char : Char}
    (member : char ∈ immediate.digits) : isIdent char = true := by
  unfold Immediate.digits at member
  split at member
  · have printed := Numeral.isNumeral_decimal
      immediate.value.natAbs
    exact Numeral.isIdent_of_isDigit (Numeral.isDigit_of_mem printed member)
  · rename_i width _
    have printed := Numeral.isNumeral_hex width
      immediate.value.natAbs
    rcases List.mem_cons.mp member with zero | member
    · subst zero; decide
    · rcases List.mem_cons.mp member with marker | member
      · subst marker; decide
      · exact Numeral.isIdent_of_isDigit (Numeral.isDigit_of_mem printed member)

/-- A decimal immediate of at most 64 bits is far from the numbers too large to measure. -/
theorem natAbs_le_largestMeasured {value : Int} {bits : Nat} (narrow : bits ≤ 64)
    (fits : bitLength value + 1 ≤ bits) : value.natAbs ≤ largestMeasured := by
  have range := (bitLength_le_iff value 63).mp (by omega)
  unfold largestMeasured
  omega

theorem readImmediate_text {immediate : Immediate} {bits : Nat} (narrow : bits ≤ 64)
    (fits : immediate.Fits bits) :
    readImmediate bits immediate.text.toList = .ok immediate := by
  have unsigned : '-' ∉ immediate.digits := by
    intro member
    exact absurd (Immediate.isIdent_of_mem_digits member) (by decide)
  rw [Immediate.toList_text]
  unfold readImmediate
  rw [List.tail_cons, splitMinus_sign _ unsigned]
  obtain ⟨value, radix⟩ := immediate
  cases radix with
  | decimal =>
    have numeral := Numeral.isNumeral_decimal value.natAbs
    have room : bitLength value + 1 ≤ bits := fits
    have measured := natAbs_le_largestMeasured narrow room
    simp only [Immediate.digits, afterHexMarker?_decimal numeral, numeral, Bool.not_true,
      Bool.false_eq_true, ↓reduceIte, Numeral.value_decimal,
      Numeral.withSign_natAbs]
    rw [if_neg (by omega), if_neg (by omega)]
  | hex width =>
    obtain ⟨positive, room, small⟩ := fits
    have numeral := Numeral.isNumeral_hex width value.natAbs
    have size := Numeral.length_leftpad_toDigits 16 (by decide) positive small
    simp only [Immediate.digits, afterHexMarker?, numeral, Bool.not_true, Bool.false_eq_true,
      ↓reduceIte, size, Numeral.value_hex,
      Numeral.withSign_natAbs]
    rw [if_neg (by omega)]

theorem toList_signed (number : Int) :
    (Numeral.signed number).toList =
      (if decide (number < 0) then ['-'] else []) ++ Nat.toDigits 10 number.natAbs := by
  by_cases negative : number < 0 <;> simp [Numeral.signed, Numeral.decimal, negative]

/-- The displacement that its canonical text does not spell: the lowest of all, whose digits alone are
no signed 64-bit number. -/
def MemoryRef.IsLowest (reference : MemoryRef) : Prop :=
  reference.displacement.toInt = -(Numeral.signedLimit : Int)

instance (reference : MemoryRef) : Decidable reference.IsLowest :=
  inferInstanceAs (Decidable (reference.displacement.toInt = -(Numeral.signedLimit : Int)))

def Operand.IsLowest {Label : Type} : Operand Label → Prop
  | .memory reference => reference.IsLowest
  | .immediate _ | .register _ | .label _ => False

theorem readDisplacement?_signed (displacement : BitVec 64) :
    readDisplacement? (Numeral.signed displacement.toInt).toList =
      if displacement.toInt = -(Numeral.signedLimit : Int) then none else some displacement := by
  have numeral := Numeral.isNumeral_decimal
    displacement.toInt.natAbs
  have unsigned := not_mem_of_isNumeral '-' numeral (by decide)
  have value : (if displacement.toInt < 0 then -(displacement.toInt.natAbs : Int)
      else displacement.toInt.natAbs) = displacement.toInt := by
    simpa only [Numeral.withSign, decide_eq_true_eq] using
      Numeral.withSign_natAbs displacement.toInt
  have lower := BitVec.le_toInt displacement
  have upper := BitVec.toInt_lt (x := displacement)
  rw [toList_signed]
  unfold readDisplacement?
  rw [splitMinus_sign _ unsigned]
  simp only [afterHexMarker?_decimal numeral, readDecimal?, numeral, Bool.true_and,
    Numeral.value_decimal, decide_eq_true_eq]
  have limit : displacement.toInt.natAbs < Numeral.signedLimit ↔
      displacement.toInt ≠ -(Numeral.signedLimit : Int) := by
    simp only [Numeral.signedLimit]
    omega
  by_cases lowest : displacement.toInt = -(Numeral.signedLimit : Int)
  · simp [lowest]
  · rw [if_pos (limit.mpr lowest), if_neg lowest, Option.map_some, value, BitVec.ofInt_toInt]

end AsmLab
