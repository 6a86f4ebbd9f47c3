import AsmLab.Proofs.Source.NumberGrammar

/-! Which displacements are read. The grammar has the signed 64-bit numbers, in either radix. Of these
the lowest is not read, since its digits are read before its sign; on the other hand a second sign is
let through between the marker of a hexadecimal number and its digits. -/
namespace AsmLab.Source

/-- A spelling of a signed 64-bit number. -/
def SpellsDisplacement (chars : List Char) (value : Int) : Prop :=
  (∃ radix, SpellsNumber chars ⟨value, radix⟩) ∧ -(2 : Int) ^ 63 ≤ value ∧ value < (2 : Int) ^ 63

/-- The sign in front of the digits, which says whether they count below zero. -/
def innerSign (below : Bool) : Char :=
  if below then '-' else '+'

def applySign (negative : Bool) (value : Int) : Int :=
  if negative then -value else value

/-- Hexadecimal digits with a sign of their own behind the marker. The sign in front of the marker
applies to the signed number, and the result wraps around. -/
inductive ResignedDisplacement : List Char → Int → Prop where
  | hex (negative below : Bool) {marker : Char} {digits : List Char} {number : Nat}
      (marked : marker = 'x' ∨ marker = 'X') (written : WritesNumber 16 digits number)
      (low : -(2 : Int) ^ 63 ≤ Numeral.withSign below number)
      (high : Numeral.withSign below number < (2 : Int) ^ 63) :
      ResignedDisplacement (minusIf negative ++ '0' :: marker :: innerSign below :: digits)
        ((applySign negative (Numeral.withSign below number)).bmod (2 ^ 64))

/-- The texts that are read as displacements. -/
def TakenDisplacement (chars : List Char) (value : Int) : Prop :=
  (SpellsDisplacement chars value ∧ value ≠ -(2 : Int) ^ 63) ∨ ResignedDisplacement chars value

/-- The texts on which the grammar and what is read differ. -/
def MisreadDisplacement (chars : List Char) : Prop :=
  SpellsDisplacement chars (-(2 : Int) ^ 63) ∨ ∃ value, ResignedDisplacement chars value

section Readers

variable {digits : List Char} {value : Int}

/-- A numeral that is read only when its number is in a range. -/
theorem ranged_eq_some_iff {base : Nat} (small : base ≤ 16) {admits : Nat → Bool}
    {range : Nat → Prop} (admits_iff : ∀ number, admits number = true ↔ range number)
    {result : Nat → Int} :
    (if Numeral.isNumeral base digits && admits (Numeral.value base digits) then
        some (result (Numeral.value base digits))
      else none) = some value ↔
      ∃ number, WritesNumber base digits number ∧ range number ∧ value = result number := by
  simp only [writesNumber_iff small, Bool.and_eq_true, admits_iff, Option.ite_none_right_eq_some,
    Option.some.injEq]
  constructor
  · intro read
    exact ⟨_, ⟨read.1.1, rfl⟩, read.1.2, read.2.symm⟩
  · intro writes
    obtain ⟨number, ⟨numeral, rfl⟩, inside, rfl⟩ := writes
    exact ⟨⟨numeral, inside⟩, rfl⟩

theorem readDecimal?_eq_some_iff :
    readDecimal? digits = some value ↔
      ∃ number : Nat, WritesNumber 10 digits number ∧ number < Numeral.signedLimit ∧
        value = number := by
  unfold readDecimal?
  exact ranged_eq_some_iff (show 10 ≤ 16 by decide) fun number =>
    decide_eq_true_iff (p := number < Numeral.signedLimit)

/-- Whether a magnitude with its sign is a signed 64-bit number. -/
theorem withSign_range_iff (below : Bool) (magnitude : Nat) :
    (decide (magnitude < Numeral.signedLimit) ||
        (below && decide (magnitude = Numeral.signedLimit))) = true ↔
      -(2 : Int) ^ 63 ≤ Numeral.withSign below magnitude ∧
        Numeral.withSign below magnitude < (2 : Int) ^ 63 := by
  simp only [Bool.or_eq_true, Bool.and_eq_true, decide_eq_true_eq]
  unfold Numeral.signedLimit Numeral.withSign
  cases below with
  | false =>
    simp only [Bool.false_eq_true, ↓reduceIte, false_and, or_false]
    omega
  | true =>
    simp only [true_and, ↓reduceIte]
    omega

theorem readSignedHex?_innerSign (below : Bool) :
    readSignedHex? (innerSign below :: digits) = some value ↔
      ∃ number, WritesNumber 16 digits number ∧
        (-(2 : Int) ^ 63 ≤ Numeral.withSign below number ∧
          Numeral.withSign below number < (2 : Int) ^ 63) ∧
        value = Numeral.withSign below number := by
  have opened : readSignedHex? (innerSign below :: digits) =
      if Numeral.isNumeral 16 digits && (decide (Numeral.value 16 digits < Numeral.signedLimit) ||
          (below && decide (Numeral.value 16 digits = Numeral.signedLimit))) then
        some (Numeral.withSign below (Numeral.value 16 digits))
      else none := by
    cases below <;> rfl
  rw [opened]
  exact ranged_eq_some_iff (show 16 ≤ 16 by decide) (withSign_range_iff below)

theorem readSignedHex?_unsigned (unsigned : ∀ below, digits.head? ≠ some (innerSign below)) :
    readSignedHex? digits = some value ↔
      ∃ number : Nat, WritesNumber 16 digits number ∧ number < Numeral.signedLimit ∧
        value = number := by
  have opened : readSignedHex? digits =
      if Numeral.isNumeral 16 digits && decide (Numeral.value 16 digits < Numeral.signedLimit) then
        some (Numeral.value 16 digits : Int)
      else none := by
    cases digits with
    | nil => rfl
    | cons head tail =>
      have plus : head ≠ '+' := fun same => unsigned false (congrArg some same)
      have minus : head ≠ '-' := fun same => unsigned true (congrArg some same)
      simp [readSignedHex?, splitMinus, plus, minus, Numeral.withSign]
  rw [opened]
  exact ranged_eq_some_iff (show 16 ≤ 16 by decide) fun number =>
    decide_eq_true_iff (p := number < Numeral.signedLimit)

end Readers

/-- Digits behind a marker start with a sign or with none. -/
theorem exists_innerSign_or (digits : List Char) :
    (∃ below rest, digits = innerSign below :: rest) ∨
      ∀ below, digits.head? ≠ some (innerSign below) := by
  by_cases signed : ∃ below, digits.head? = some (innerSign below)
  · obtain ⟨below, first⟩ := signed
    obtain ⟨rest, rfl⟩ := List.head?_eq_some_iff.mp first
    exact .inl ⟨below, rest, rfl⟩
  · exact .inr (not_exists.mp signed)

theorem WritesNumber.head?_ne {base : Nat} (small : base ≤ 16) {digits : List Char} {number : Nat}
    (written : WritesNumber base digits number) (below : Bool) :
    digits.head? ≠ some (innerSign below) := by
  intro first
  have numeral := ((writesNumber_iff small).mp written).1
  have digit := Numeral.isIdent_of_isDigit
    (Numeral.isDigit_of_mem numeral (List.mem_of_head? first))
  cases below <;> exact absurd digit (by decide)

theorem toInt_ofInt_applySign {negative : Bool} {number : Nat} (small : number < Numeral.signedLimit) :
    (BitVec.ofInt 64 (applySign negative number)).toInt = Numeral.withSign negative number := by
  unfold Numeral.signedLimit at small
  rw [BitVec.toInt_ofInt, applySign, ← Numeral.withSign]
  apply Int.bmod_eq_of_le
  · unfold Numeral.withSign
    split <;> omega
  · unfold Numeral.withSign
    split <;> omega

theorem signed_range {negative : Bool} {number : Nat} :
    (-(2 : Int) ^ 63 ≤ Numeral.withSign negative number ∧
        Numeral.withSign negative number < (2 : Int) ^ 63) ∧
      Numeral.withSign negative number ≠ -(2 : Int) ^ 63 ↔ number < Numeral.signedLimit := by
  unfold Numeral.signedLimit Numeral.withSign
  split <;> omega

section Shapes

variable {negative : Bool} {marker : Char} {digits : List Char} {number : Nat}
  {displacement : BitVec 64}

theorem readDisplacement?_decimal (numeral : Numeral.isNumeral 10 digits = true) :
    readDisplacement? (minusIf negative ++ digits) =
      (readDecimal? digits).map fun value => BitVec.ofInt 64 (applySign negative value) := by
  have unsigned := not_mem_of_isNumeral '-' numeral (by decide)
  have cut : splitMinus (minusIf negative ++ digits) = (negative, digits) :=
    splitMinus_sign negative unsigned
  simp only [readDisplacement?, cut, afterHexMarker?_decimal numeral]
  rfl

theorem readDisplacement?_marked (marked : marker = 'x' ∨ marker = 'X') :
    readDisplacement? (minusIf negative ++ '0' :: marker :: digits) =
      (readSignedHex? digits).map fun value => BitVec.ofInt 64 (applySign negative value) := by
  simp only [readDisplacement?, splitMinus_marked, afterHexMarker?_cons marked]
  rfl

theorem ofInt_applySign_eq (small : number < Numeral.signedLimit) :
    BitVec.ofInt 64 (applySign negative number) = displacement ↔
      displacement.toInt = Numeral.withSign negative number := by
  rw [← BitVec.toInt_inj, toInt_ofInt_applySign small]
  exact eq_comm

end Shapes

variable {chars : List Char} {displacement : BitVec 64}

theorem readDisplacement?_of_spells (spelled : SpellsDisplacement chars displacement.toInt)
    (notLowest : displacement.toInt ≠ -(2 : Int) ^ 63) :
    readDisplacement? chars = some displacement := by
  obtain ⟨⟨radix, spelled⟩, low, high⟩ := spelled
  generalize same : displacement.toInt = value at spelled low high notLowest
  cases spelled with
  | decimal negative written =>
    have small := signed_range.mp ⟨⟨low, high⟩, notLowest⟩
    have numeral := ((writesNumber_iff (by decide)).mp written).1
    rw [readDisplacement?_decimal numeral,
      readDecimal?_eq_some_iff.mpr ⟨_, written, small, rfl⟩, Option.map_some]
    exact congrArg some ((ofInt_applySign_eq small).mpr same)
  | hex negative marked written =>
    have small := signed_range.mp ⟨⟨low, high⟩, notLowest⟩
    have unsigned := written.head?_ne (by decide)
    rw [readDisplacement?_marked marked,
      (readSignedHex?_unsigned unsigned).mpr ⟨_, written, small, rfl⟩, Option.map_some]
    exact congrArg some ((ofInt_applySign_eq small).mpr same)

theorem readDisplacement?_of_resigned
    (resigned : ResignedDisplacement chars displacement.toInt) :
    readDisplacement? chars = some displacement := by
  generalize same : displacement.toInt = value at resigned
  cases resigned with
  | hex negative below marked written low high =>
    rw [readDisplacement?_marked marked,
      (readSignedHex?_innerSign below).mpr ⟨_, written, ⟨low, high⟩, rfl⟩, Option.map_some]
    apply congrArg some
    rw [← BitVec.toInt_inj, BitVec.toInt_ofInt, same]

/-- A number below the limit, with its sign, is spelled as the word that it is read as. -/
theorem spellsDisplacement_of_small {radix : Radix} {number : Nat} {negative : Bool}
    (spelled : SpellsNumber chars ⟨Numeral.withSign negative number, radix⟩)
    (small : number < Numeral.signedLimit)
    (read : BitVec.ofInt 64 (applySign negative number) = displacement) :
    SpellsDisplacement chars displacement.toInt ∧ displacement.toInt ≠ -(2 : Int) ^ 63 := by
  rw [(ofInt_applySign_eq small).mp read]
  obtain ⟨range, notLowest⟩ := signed_range.mpr small
  exact ⟨⟨⟨radix, spelled⟩, range⟩, notLowest⟩

theorem taken_of_readDisplacement? (read : readDisplacement? chars = some displacement) :
    TakenDisplacement chars displacement.toInt := by
  obtain ⟨negative, magnitude, cut⟩ : ∃ negative magnitude,
      splitMinus chars = (negative, magnitude) := ⟨_, _, rfl⟩
  rw [eq_of_splitMinus cut]
  simp only [readDisplacement?, cut, Option.map_eq_some_iff] at read
  obtain ⟨value, read, result⟩ := read
  change BitVec.ofInt 64 (applySign negative value) = displacement at result
  split at read
  · rename_i digits marked
    obtain ⟨marker, either, rfl⟩ := exists_marker_of_afterHexMarker? marked
    rcases exists_innerSign_or digits with ⟨below, rest, rfl⟩ | unsigned
    · obtain ⟨number, written, ⟨low, high⟩, rfl⟩ := (readSignedHex?_innerSign below).mp read
      right
      rw [← result, BitVec.toInt_ofInt]
      exact .hex negative below either written low high
    · obtain ⟨number, written, small, rfl⟩ := (readSignedHex?_unsigned unsigned).mp read
      left
      exact spellsDisplacement_of_small (.hex negative either written) small result
  · obtain ⟨number, written, small, rfl⟩ := readDecimal?_eq_some_iff.mp read
    left
    exact spellsDisplacement_of_small (.decimal negative written) small result

/-- What is read is the grammar without the lowest number, and the numbers with two signs. -/
theorem readDisplacement?_eq_some_iff :
    readDisplacement? chars = some displacement ↔
      TakenDisplacement chars displacement.toInt := by
  constructor
  · exact taken_of_readDisplacement?
  · intro taken
    rcases taken with ⟨spelled, notLowest⟩ | resigned
    · exact readDisplacement?_of_spells spelled notLowest
    · exact readDisplacement?_of_resigned resigned

theorem SpellsDisplacement.unique {first second : Int} (spelled : SpellsDisplacement chars first)
    (again : SpellsDisplacement chars second) : first = second := by
  obtain ⟨⟨_, number⟩, _⟩ := spelled
  obtain ⟨⟨_, other⟩, _⟩ := again
  exact congrArg Immediate.value (number.unique other)

/-- No text is in the grammar and has two signs. -/
theorem ResignedDisplacement.not_spells {value other : Int}
    (resigned : ResignedDisplacement chars value) : ¬ SpellsDisplacement chars other := by
  intro displaced
  obtain ⟨⟨radix, spelled⟩, _⟩ := displaced
  cases resigned with
  | @hex negative below marker digits _ marked =>
    have signed : Numeral.isNumeral 16 (innerSign below :: digits) = false := by
      cases below <;> rfl
    refine not_spells_of_literal?_none ?_ _ spelled
    simp [literal?, splitMinus_marked, afterHexMarker?_cons marked, signed]

theorem ResignedDisplacement.ne_nil {value : Int} (resigned : ResignedDisplacement chars value) :
    chars ≠ [] := by
  cases resigned
  simp

/-- The letters of displacements, of which none is a blank and none brackets or separates anything. -/
def isNumberChar (char : Char) : Bool :=
  isIdent char || char = '-' || char = '+'

theorem isNumberChar_of_writes {base : Nat} (small : base ≤ 16) {digits : List Char} {number : Nat}
    (written : WritesNumber base digits number) : ∀ char ∈ digits, isNumberChar char = true := by
  intro char member
  have numeral := ((writesNumber_iff small).mp written).1
  simp [isNumberChar, Numeral.isIdent_of_isDigit (Numeral.isDigit_of_mem numeral member)]

theorem isNumberChar_of_minusIf (negative : Bool) :
    ∀ char ∈ minusIf negative, isNumberChar char = true := by
  cases negative <;> simp [minusIf, isNumberChar]

theorem isNumberChar_of_marker {marker : Char} (marked : marker = 'x' ∨ marker = 'X') :
    isNumberChar marker = true := by
  rcases marked with rfl | rfl <;> decide

theorem SpellsNumber.isNumberChar {constant : Immediate} (spelled : SpellsNumber chars constant) :
    ∀ char ∈ chars, isNumberChar char = true := by
  cases spelled with
  | decimal negative written =>
    rw [List.forall_mem_append]
    exact ⟨isNumberChar_of_minusIf negative, isNumberChar_of_writes (by decide) written⟩
  | hex negative marked written =>
    rw [List.forall_mem_append, List.forall_mem_cons, List.forall_mem_cons]
    exact ⟨isNumberChar_of_minusIf negative, by decide, isNumberChar_of_marker marked,
      isNumberChar_of_writes (by decide) written⟩

theorem ResignedDisplacement.isNumberChar {value : Int}
    (resigned : ResignedDisplacement chars value) : ∀ char ∈ chars, isNumberChar char = true := by
  cases resigned with
  | hex negative below marked written =>
    rw [List.forall_mem_append, List.forall_mem_cons, List.forall_mem_cons, List.forall_mem_cons]
    exact ⟨isNumberChar_of_minusIf negative, by decide, isNumberChar_of_marker marked,
      by cases below <;> decide, isNumberChar_of_writes (by decide) written⟩

end AsmLab.Source
