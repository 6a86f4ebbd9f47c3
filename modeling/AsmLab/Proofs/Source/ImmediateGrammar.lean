import AsmLab.Exec.Access
import AsmLab.Proofs.Source.NumberGrammar

/-! Which immediates a place takes. The number has to be spelled as the grammar says and has to fit: a
decimal one is a signed number of the width, a hexadecimal one has a digit for four bits of it at most.
A rejection tells which of the two is missing. -/
namespace AsmLab.Source

/-- A decimal number counts by its value, a hexadecimal one by its digits. -/
def Holds (size : Size) (constant : Immediate) : Prop :=
  match constant.radix with
  | .decimal =>
    -(2 : Int) ^ (size.bits - 1) ≤ constant.value ∧ constant.value < (2 : Int) ^ (size.bits - 1)
  | .hex digits => digits ≤ size.bits / 4

/-- What reading an immediate comes to. -/
inductive ImmediateOutcome (size : Size) (spelled : List Char) :
    Except ErrorCause Immediate → Prop where
  | taken {constant : Immediate} (spells : SpellsNumber spelled constant)
      (held : Holds size constant) : ImmediateOutcome size spelled (.ok constant)
  | tooLarge {constant : Immediate} {cause : ErrorCause} (spells : SpellsNumber spelled constant)
      (wide : ¬ Holds size constant) (kind : cause.kind = .constantTooLarge) :
      ImmediateOutcome size spelled (.error cause)
  | malformed {cause : ErrorCause} (nothing : ∀ constant, ¬ SpellsNumber spelled constant)
      (kind : cause.kind = .invalidConstant) : ImmediateOutcome size spelled (.error cause)

/-- A signed number of the width leaves room for the sign bit. -/
theorem holds_decimal_iff {size : Size} {value : Int} :
    Holds size ⟨value, .decimal⟩ ↔ bitLength value + 1 ≤ size.bits := by
  have fits := size.fits_iff value
  rw [Size.fits, decide_eq_true_iff] at fits
  exact fits.symm

theorem readImmediate_outcome (size : Size) (text : List Char) :
    ImmediateOutcome size text.tail (readImmediate size.bits text) := by
  obtain ⟨negative, magnitude, cut⟩ : ∃ negative magnitude,
      splitMinus text.tail = (negative, magnitude) := ⟨_, _, rfl⟩
  cases marked : afterHexMarker? magnitude with
  | some digits =>
    by_cases numeral : Numeral.isNumeral 16 digits = true
    · have spells : SpellsNumber text.tail
          ⟨Numeral.withSign negative (Numeral.value 16 digits), .hex digits.length⟩ := by
        rw [← literal?_eq_some_iff]
        simp [literal?, cut, marked, numeral]
      by_cases wide : size.bits < 4 * digits.length
      · simp only [readImmediate, cut, marked, numeral, wide, Bool.not_true, Bool.false_eq_true,
          ↓reduceIte]
        exact .tooLarge spells (by simp only [Holds]; omega) rfl
      · simp only [readImmediate, cut, marked, numeral, wide, Bool.not_true, Bool.false_eq_true,
          ↓reduceIte]
        exact .taken spells (by simp only [Holds]; omega)
    · have none : literal? text.tail = none := by simp [literal?, cut, marked, numeral]
      simp only [readImmediate, cut, marked, numeral, Bool.not_false, ↓reduceIte]
      exact .malformed (not_spells_of_literal?_none none) rfl
  | none =>
    by_cases numeral : Numeral.isNumeral 10 magnitude = true
    · have spells : SpellsNumber text.tail
          ⟨Numeral.withSign negative (Numeral.value 10 magnitude), .decimal⟩ := by
        rw [← literal?_eq_some_iff]
        simp [literal?, cut, marked, numeral]
      by_cases held : Holds size
          ⟨Numeral.withSign negative (Numeral.value 10 magnitude), .decimal⟩
      · have room := holds_decimal_iff.mp held
        have measured := natAbs_le_largestMeasured size.bits_le room
        rw [Numeral.natAbs_withSign] at measured
        simp only [readImmediate, cut, marked, numeral, Bool.not_true, Bool.false_eq_true, ↓reduceIte,
          Nat.not_lt.mpr measured, Nat.not_lt.mpr room]
        exact .taken spells held
      · have wide := Nat.lt_of_not_le (mt holds_decimal_iff.mpr held)
        simp only [readImmediate, cut, marked, numeral, Bool.not_true, Bool.false_eq_true, ↓reduceIte,
          wide]
        split
        · exact .tooLarge spells held rfl
        · exact .tooLarge spells held rfl
    · have none : literal? text.tail = none := by simp [literal?, cut, marked, numeral]
      simp only [readImmediate, cut, marked, numeral, Bool.not_false, ↓reduceIte]
      exact .malformed (not_spells_of_literal?_none none) rfl

namespace ImmediateOutcome

variable {size : Size} {spelled : List Char}

/-- What is taken is the only number that is spelled and held. -/
theorem eq_iff {constant : Immediate} (outcome : ImmediateOutcome size spelled (.ok constant))
    (other : Immediate) : constant = other ↔ SpellsNumber spelled other ∧ Holds size other := by
  cases outcome with
  | taken spells held =>
    constructor
    · rintro rfl
      exact ⟨spells, held⟩
    · intro again
      exact spells.unique again.1

/-- A rejected text spells nothing that is held, and the kind tells why. -/
theorem kind_iff {cause : ErrorCause} (outcome : ImmediateOutcome size spelled (.error cause)) :
    (¬ ∃ constant, SpellsNumber spelled constant ∧ Holds size constant) ∧
    (cause.kind = .invalidConstant ↔ ¬ ∃ constant, SpellsNumber spelled constant) ∧
    (cause.kind = .constantTooLarge ↔
      ∃ constant, SpellsNumber spelled constant ∧ ¬ Holds size constant) := by
  cases outcome with
  | @tooLarge constant _ spells wide kind =>
    rw [kind]
    refine ⟨?_, ?_, iff_of_true rfl ⟨constant, spells, wide⟩⟩
    · intro fits
      obtain ⟨other, again, held⟩ := fits
      exact wide (spells.unique again ▸ held)
    · exact iff_of_false nofun (not_not.mpr ⟨constant, spells⟩)
  | malformed nothing kind =>
    have unfit (fits : Immediate → Prop) :
        ¬ ∃ constant, SpellsNumber spelled constant ∧ fits constant := by
      intro found
      obtain ⟨other, spells, _⟩ := found
      exact nothing other spells
    rw [kind]
    exact ⟨unfit _, iff_of_true rfl (not_exists.mpr nothing), iff_of_false nofun (unfit _)⟩

end ImmediateOutcome

variable {slot : Slot} {piece : Fragment}

/-- Behind a dollar sign a place for constants reads an immediate and nothing else. -/
theorem readOperand_constant_eq (admitted : slot.constant = true) (dollar : piece.head? = some '$')
    (noAddress : '(' ∉ piece.chars) :
    readOperand slot piece =
      match readImmediate slot.size.bits piece.chars with
      | .ok constant => .ok (.immediate constant)
      | .error cause => reject piece cause := by
  have reads : readOperand slot piece = readConstantOperand slot piece := by
    simp [readOperand, noAddress, dollar]
  have allowed : ¬ (!slot.constant) = true := by simp [admitted]
  rw [reads]
  exact if_neg allowed

/-- An immediate reads as its number, but for multiples of the modulus of the width. -/
theorem read_immediate_modEq (constant : Immediate) (size : Size) (machine : Machine)
    (labels : LabelTable) :
    ∃ number, Operand.read (.immediate constant) size machine labels = .ok number ∧
      number ≡ constant.value [ZMOD 2 ^ size.bits] := by
  refine ⟨size.truncate constant.value, rfl, ?_⟩
  have modulus : ((size.modulus : Nat) : Int) = 2 ^ size.bits := by simp [size.modulus_eq]
  rw [Int.ModEq, ← modulus, Size.truncate, Int.bmod_emod]

/-- A place for constants takes exactly the numbers that are spelled as such and fit, with the value
that is written. The kind of a rejection tells a wrong spelling from a number too large. -/
theorem readOperand_immediate (admitted : slot.constant = true) (dollar : piece.head? = some '$')
    (noAddress : '(' ∉ piece.chars) :
    (∀ operand, readOperand slot piece = .ok operand ↔
      ∃ constant, operand = .immediate constant ∧ SpellsNumber piece.chars.tail constant ∧
        Holds slot.size constant) ∧
    (∀ failure, readOperand slot piece = .error failure →
      (failure.cause.kind = .invalidConstant ↔
        ¬ ∃ constant, SpellsNumber piece.chars.tail constant) ∧
      (failure.cause.kind = .constantTooLarge ↔
        ∃ constant, SpellsNumber piece.chars.tail constant ∧ ¬ Holds slot.size constant)) ∧
    ∀ constant, readOperand slot piece = .ok (.immediate constant) → ∀ machine labels,
      ∃ number, Operand.read (.immediate constant) slot.size machine labels = .ok number ∧
        number ≡ constant.value [ZMOD 2 ^ slot.size.bits] := by
  have outcome := readImmediate_outcome slot.size piece.chars
  rw [readOperand_constant_eq admitted dollar noAddress]
  refine ⟨?accepted, ?rejected, fun constant _ => read_immediate_modEq constant slot.size⟩
  case accepted =>
    intro operand
    cases read : readImmediate slot.size.bits piece.chars with
    | ok constant =>
      rw [read] at outcome
      simp only [← outcome.eq_iff, Except.ok.injEq]
      constructor
      · intro same
        exact ⟨constant, same.symm, rfl⟩
      · intro same
        obtain ⟨_, rfl, rfl⟩ := same
        rfl
    | error cause =>
      rw [read] at outcome
      refine iff_of_false nofun ?_
      intro fits
      obtain ⟨constant, _, fits⟩ := fits
      exact outcome.kind_iff.1 ⟨constant, fits⟩
  case rejected =>
    intro failure failed
    cases read : readImmediate slot.size.bits piece.chars with
    | ok constant =>
      rw [read] at failed
      cases failed
    | error cause =>
      rw [read] at outcome failed
      obtain rfl := Except.error.inj failed
      exact outcome.kind_iff.2

/-- The lowest number of sixteen bits is taken, and its negation is the first one that is too large. -/
theorem readOperand_immediate_bounds :
    readOperand (.value .word) ⟨5, "$-32768".toList⟩ = .ok (.immediate ⟨-32768, .decimal⟩) ∧
    ∃ failure, readOperand (.value .word) ⟨5, "$32768".toList⟩ = .error failure ∧
      failure.cause.kind = .constantTooLarge := by
  constructor
  · apply ((readOperand_immediate rfl rfl (by decide)).1 _).mpr
    refine ⟨_, rfl, literal?_eq_some_iff.mp (by decide), ?_⟩
    exact ⟨by decide, by decide⟩
  · have failed : readOperand (.value .word) ⟨5, "$32768".toList⟩ =
        .error ⟨.constantTooWide "$32768" 17 16, 5, 11⟩ := by decide +kernel
    refine ⟨_, failed, ?_⟩
    apply ((readOperand_immediate rfl rfl (by decide)).2.1 _ failed).2.mpr
    refine ⟨⟨32768, .decimal⟩, literal?_eq_some_iff.mp (by decide), ?_⟩
    intro held
    exact absurd held.2 (by decide)

end AsmLab.Source
