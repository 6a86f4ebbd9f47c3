import AsmLab.Proofs.Source.ConstantText

/-! The language of signed numbers, said without a reader: an optional minus sign, then decimal digits
or hexadecimal ones behind their marker. Numerals are read from the left by one fold; here their number
is the sum of their digits times the powers of the base. -/
namespace AsmLab.Source

/-- A character for a digit of a base. Letters count in either case. -/
def WritesDigit (base : Nat) (char : Char) (digit : Nat) : Prop :=
  digit < base ∧ (char = digit.digitChar ∨ char = digit.digitChar.toUpper)

/-- One or more digits of a base, the highest first, and the number that they write. -/
def WritesNumber (base : Nat) (chars : List Char) (number : Nat) : Prop :=
  chars ≠ [] ∧ ∃ digits, List.Forall₂ (WritesDigit base) chars digits ∧
    number = Nat.ofDigits base digits.reverse

def minusIf (negative : Bool) : List Char :=
  if negative then ['-'] else []

/-- The spellings of a signed number. -/
inductive SpellsNumber : List Char → Immediate → Prop where
  | decimal (negative : Bool) {digits : List Char} {number : Nat}
      (written : WritesNumber 10 digits number) :
      SpellsNumber (minusIf negative ++ digits) ⟨Numeral.withSign negative number, .decimal⟩
  | hex (negative : Bool) {marker : Char} {digits : List Char} {number : Nat}
      (marked : marker = 'x' ∨ marker = 'X') (written : WritesNumber 16 digits number) :
      SpellsNumber (minusIf negative ++ '0' :: marker :: digits)
        ⟨Numeral.withSign negative number, .hex digits.length⟩

section Digits

theorem char_eq_ofNat_add {char : Char} {low : Nat} (above : low ≤ char.toNat) :
    char = Char.ofNat (low + (char.toNat - low)) := by
  rw [Nat.add_sub_cancel' above, Char.ofNat_toNat]

/-- A character that counts as a digit is the character of that digit, in one case or the other. -/
theorem digitChar_of_digit? {char : Char} {digit : Nat} (found : Numeral.digit? char = some digit) :
    char = digit.digitChar ∨ char = digit.digitChar.toUpper := by
  have decimals (offset : Nat) (small : offset < 10) :
      Char.ofNat (48 + offset) = offset.digitChar := by
    interval_cases offset <;> rfl
  have letters (offset : Nat) (small : offset < 6) :
      Char.ofNat (97 + offset) = (offset + 10).digitChar ∧
        Char.ofNat (65 + offset) = (offset + 10).digitChar.toUpper := by
    interval_cases offset <;> exact ⟨rfl, rfl⟩
  unfold Numeral.digit? at found
  split at found
  · rename_i decimal
    obtain ⟨low, high⟩ : 48 ≤ char.toNat ∧ char.toNat ≤ 57 := decimal
    obtain rfl : char.toNat - 48 = digit := Option.some.inj found
    left
    exact (char_eq_ofNat_add low).trans (decimals _ (by omega))
  · split at found
    · rename_i lower
      obtain ⟨low, high⟩ : 97 ≤ char.toNat ∧ char.toNat ≤ 102 := lower
      obtain rfl : char.toNat - 97 + 10 = digit := Option.some.inj found
      left
      exact (char_eq_ofNat_add low).trans (letters _ (by omega)).1
    · split at found
      · rename_i upper
        obtain ⟨low, high⟩ : 65 ≤ char.toNat ∧ char.toNat ≤ 70 := upper
        obtain rfl : char.toNat - 65 + 10 = digit := Option.some.inj found
        right
        exact (char_eq_ofNat_add low).trans (letters _ (by omega)).2
      · cases found

theorem writesDigit_iff {base : Nat} (small : base ≤ 16) {char : Char} {digit : Nat} :
    WritesDigit base char digit ↔ Numeral.digitBelow? base char = some digit := by
  constructor
  · intro written
    obtain ⟨below, spelled⟩ := written
    have upper : ∀ digit : Fin 16,
        Numeral.digit? (Nat.digitChar digit).toUpper = some digit.val := by decide
    have found : Numeral.digit? char = some digit := by
      rcases spelled with lower | raised
      · rw [lower, Numeral.digit?_digitChar (by omega)]
      · rw [raised]
        exact upper ⟨digit, by omega⟩
    simp [Numeral.digitBelow?, found, below]
  · intro found
    have below := Numeral.digitBelow?_lt found
    simp only [Numeral.digitBelow?, Option.filter_eq_some_iff] at found
    exact ⟨below, digitChar_of_digit? found.1⟩

theorem value_of_forall₂ {base : Nat} (small : base ≤ 16) {chars : List Char} {digits : List Nat}
    (written : List.Forall₂ (WritesDigit base) chars digits) :
    Numeral.value base chars = Nat.ofDigits base digits.reverse := by
  have fold (start : Nat) : chars.foldl
      (fun total char => total * base + (Numeral.digitBelow? base char).getD 0) start =
        Nat.ofDigits base digits.reverse + base ^ digits.length * start := by
    induction written generalizing start with
    | nil => simp
    | cons first _ ih =>
      rw [List.foldl_cons, ih, (writesDigit_iff small).mp first, List.reverse_cons,
        Nat.ofDigits_append, List.length_reverse, Nat.ofDigits_singleton, List.length_cons,
        Option.getD_some]
      ring
  simpa [Numeral.value] using fold 0

theorem exists_forall₂_of_digits {base : Nat} (small : base ≤ 16) {chars : List Char}
    (digits : ∀ char ∈ chars, Numeral.isDigit base char = true) :
    ∃ values, List.Forall₂ (WritesDigit base) chars values := by
  induction chars with
  | nil => exact ⟨[], .nil⟩
  | cons char rest ih =>
    obtain ⟨digit, found⟩ := Option.isSome_iff_exists.mp (digits char (by simp))
    obtain ⟨values, written⟩ := ih fun other member => digits other (by simp [member])
    exact ⟨digit :: values, .cons ((writesDigit_iff small).mpr found) written⟩

theorem isDigit_of_forall₂ {base : Nat} (small : base ≤ 16) {chars : List Char}
    {digits : List Nat} (written : List.Forall₂ (WritesDigit base) chars digits) :
    ∀ char ∈ chars, Numeral.isDigit base char = true := by
  induction written with
  | nil => simp
  | cons first _ ih =>
    rw [List.forall_mem_cons]
    refine ⟨?_, ih⟩
    rw [Numeral.isDigit, (writesDigit_iff small).mp first]
    rfl

theorem isNumeral_iff {base : Nat} {chars : List Char} :
    Numeral.isNumeral base chars = true ↔
      chars ≠ [] ∧ ∀ char ∈ chars, Numeral.isDigit base char = true := by
  simp [Numeral.isNumeral]

theorem writesNumber_iff {base : Nat} (small : base ≤ 16) {chars : List Char} {number : Nat} :
    WritesNumber base chars number ↔
      Numeral.isNumeral base chars = true ∧ Numeral.value base chars = number := by
  rw [isNumeral_iff]
  constructor
  · intro writes
    obtain ⟨nonempty, digits, written, rfl⟩ := writes
    exact ⟨⟨nonempty, isDigit_of_forall₂ small written⟩, value_of_forall₂ small written⟩
  · intro read
    obtain ⟨⟨nonempty, numeral⟩, rfl⟩ := read
    obtain ⟨digits, written⟩ := exists_forall₂_of_digits small numeral
    exact ⟨nonempty, digits, written, value_of_forall₂ small written⟩

end Digits

/-- The sign and the marker taken off the front, and a numeral left. -/
def literal? (chars : List Char) : Option Immediate :=
  let (negative, magnitude) := splitMinus chars
  match afterHexMarker? magnitude with
  | some digits =>
    if Numeral.isNumeral 16 digits then
      some ⟨Numeral.withSign negative (Numeral.value 16 digits), .hex digits.length⟩
    else none
  | none =>
    if Numeral.isNumeral 10 magnitude then
      some ⟨Numeral.withSign negative (Numeral.value 10 magnitude), .decimal⟩
    else none

theorem eq_of_splitMinus {chars magnitude : List Char} {negative : Bool}
    (cut : splitMinus chars = (negative, magnitude)) : chars = minusIf negative ++ magnitude := by
  unfold splitMinus at cut
  split at cut
  · obtain ⟨rfl, rfl⟩ := Prod.mk.inj cut
    rfl
  · obtain ⟨rfl, rfl⟩ := Prod.mk.inj cut
    rfl

theorem exists_marker_of_afterHexMarker? {chars digits : List Char}
    (found : afterHexMarker? chars = some digits) :
    ∃ marker, (marker = 'x' ∨ marker = 'X') ∧ chars = '0' :: marker :: digits := by
  unfold afterHexMarker? at found
  split at found
  · obtain rfl := Option.some.inj found
    exact ⟨'x', .inl rfl, rfl⟩
  · obtain rfl := Option.some.inj found
    exact ⟨'X', .inr rfl, rfl⟩
  · cases found

theorem afterHexMarker?_cons {marker : Char} (marked : marker = 'x' ∨ marker = 'X')
    (digits : List Char) : afterHexMarker? ('0' :: marker :: digits) = some digits := by
  rcases marked with rfl | rfl <;> rfl

theorem splitMinus_marked (negative : Bool) (marker : Char) (digits : List Char) :
    splitMinus (minusIf negative ++ '0' :: marker :: digits) =
      (negative, '0' :: marker :: digits) := by
  cases negative <;> rfl

/-- The two sides of the grammar: what is spelled is what is left behind the sign and the marker. -/
theorem literal?_eq_some_iff {chars : List Char} {constant : Immediate} :
    literal? chars = some constant ↔ SpellsNumber chars constant := by
  constructor
  · intro found
    obtain ⟨negative, magnitude, cut⟩ : ∃ negative magnitude,
        splitMinus chars = (negative, magnitude) := ⟨_, _, rfl⟩
    simp only [literal?, cut] at found
    rw [eq_of_splitMinus cut]
    split at found
    · rename_i digits marked
      obtain ⟨marker, either, rfl⟩ := exists_marker_of_afterHexMarker? marked
      split at found
      · rename_i numeral
        obtain rfl := Option.some.inj found
        exact .hex negative either ((writesNumber_iff (by decide)).mpr ⟨numeral, rfl⟩)
      · cases found
    · split at found
      · rename_i numeral
        obtain rfl := Option.some.inj found
        exact .decimal negative ((writesNumber_iff (by decide)).mpr ⟨numeral, rfl⟩)
      · cases found
  · intro spelled
    cases spelled with
    | decimal negative written =>
      obtain ⟨numeral, rfl⟩ := (writesNumber_iff (by decide)).mp written
      have unsigned := not_mem_of_isNumeral '-' numeral (by decide)
      have split : splitMinus (minusIf negative ++ _) = _ := splitMinus_sign negative unsigned
      simp [literal?, split, afterHexMarker?_decimal numeral, numeral]
    | hex negative marked written =>
      obtain ⟨numeral, rfl⟩ := (writesNumber_iff (by decide)).mp written
      simp [literal?, splitMinus_marked, afterHexMarker?_cons marked, numeral]

theorem not_spells_of_literal?_none {chars : List Char} (none : literal? chars = none) :
    ∀ constant, ¬ SpellsNumber chars constant := by
  intro constant spelled
  rw [← literal?_eq_some_iff, none] at spelled
  cases spelled

/-- A text spells one number at most. -/
theorem SpellsNumber.unique {chars : List Char} {first second : Immediate}
    (spelled : SpellsNumber chars first) (again : SpellsNumber chars second) : first = second := by
  rw [← literal?_eq_some_iff] at spelled again
  exact Option.some.inj (spelled.symm.trans again)

end AsmLab.Source
