import Mathlib
import AsmLab.Numeral
import AsmLab.Machine.Size

/-! Numerals in a base up to sixteen, written and read back: the digits that print a number are a
numeral of that base and have the number for their value, leading zeros or not. -/
namespace AsmLab.Numeral

theorem digit?_digitChar {digit : Nat} (small : digit < 16) :
    digit? digit.digitChar = some digit := by
  have table : ∀ digit : Fin 16, digit? (Nat.digitChar digit) = some digit.val := by decide
  exact table ⟨digit, small⟩

theorem digitBelow?_digitChar {base digit : Nat} (small : base ≤ 16) (below : digit < base) :
    digitBelow? base digit.digitChar = some digit := by
  rw [digitBelow?, digit?_digitChar (by omega)]
  simp [below]

theorem digitBelow?_lt {base digit : Nat} {char : Char} (found : digitBelow? base char = some digit) :
    digit < base := by
  simp only [digitBelow?, Option.filter_eq_some_iff, decide_eq_true_eq] at found
  exact found.2

theorem digitBelow?_zero {base : Nat} (positive : 0 < base) : digitBelow? base '0' = some 0 := by
  simp [digitBelow?, show digit? '0' = some 0 from rfl, positive]

theorem value_append (base : Nat) (digits : List Char) (last : Char) :
    value base (digits ++ [last]) = value base digits * base + (digitBelow? base last).getD 0 := by
  simp [value]

theorem value_lt {base : Nat} (positive : 0 < base) (digits : List Char) :
    value base digits < base ^ digits.length := by
  induction digits using List.reverseRecOn with
  | nil => simp [value]
  | append_singleton digits last ih =>
    have lastBelow : (digitBelow? base last).getD 0 < base := by
      cases found : digitBelow? base last with
      | none => simpa using positive
      | some digit => exact digitBelow?_lt found
    have enough : (value base digits + 1) * base ≤ base ^ digits.length * base :=
      Nat.mul_le_mul_right base ih
    rw [value_append, List.length_append, List.length_singleton, Nat.pow_succ]
    rw [Nat.add_mul] at enough
    omega

theorem isNumeral_append {base : Nat} {digits : List Char} {last : Char}
    (numeral : isNumeral base digits = true) (digit : isDigit base last = true) :
    isNumeral base (digits ++ [last]) = true := by
  simp only [isNumeral, Bool.and_eq_true, List.all_append, List.all_cons, List.all_nil] at numeral ⊢
  simp [numeral.2, digit]

theorem isDigit_of_mem {base : Nat} {digits : List Char} (numeral : isNumeral base digits = true)
    {char : Char} (member : char ∈ digits) : isDigit base char = true := by
  simp only [isNumeral, Bool.and_eq_true] at numeral
  exact List.all_eq_true.mp numeral.2 char member

section Printed

variable (base : Nat) (large : 1 < base) (small : base ≤ 16)

include large small

theorem isNumeral_toDigits (number : Nat) : isNumeral base (Nat.toDigits base number) = true := by
  induction number using Nat.strongRecOn with
  | ind number ih =>
    rw [Nat.toDigits_eq_if large]
    split
    · rename_i below
      simp [isNumeral, isDigit, digitBelow?_digitChar small below]
    · rename_i reached
      apply isNumeral_append (ih _ (Nat.div_lt_self (by omega) large))
      simp [isDigit, digitBelow?_digitChar small (Nat.mod_lt number (by omega))]

theorem value_toDigits (number : Nat) : value base (Nat.toDigits base number) = number := by
  induction number using Nat.strongRecOn with
  | ind number ih =>
    rw [Nat.toDigits_eq_if large]
    split
    · rename_i below
      simp [value, digitBelow?_digitChar small below]
    · rename_i reached
      rw [value_append, ih _ (Nat.div_lt_self (by omega) large),
        digitBelow?_digitChar small (Nat.mod_lt number (by omega)), Option.getD_some, Nat.mul_comm]
      exact Nat.div_add_mod number base

theorem isNumeral_leftpad (width number : Nat) :
    isNumeral base (List.leftpad width '0' (Nat.toDigits base number)) = true := by
  have printed := isNumeral_toDigits base large small number
  have zero : isDigit base '0' = true := by
    simp [isDigit, digitBelow?_zero (show 0 < base by omega)]
  simp only [isNumeral, Bool.and_eq_true, List.leftpad] at printed ⊢
  simp_all [List.all_append, List.all_replicate]

theorem value_leftpad (width number : Nat) :
    value base (List.leftpad width '0' (Nat.toDigits base number)) = number := by
  have zeros (count : Nat) (digits : List Char) :
      value base (List.replicate count '0' ++ digits) = value base digits := by
    induction count with
    | zero => rfl
    | succ count ih =>
      rw [← ih]
      simp [List.replicate_succ, value, digitBelow?_zero (show 0 < base by omega)]
  rw [List.leftpad, zeros, value_toDigits base large small]

end Printed

/-- Padding to a width that the number fits gives that width exactly. -/
theorem length_leftpad_toDigits (base : Nat) {width number : Nat} (large : 1 < base) (positive : 0 < width)
    (fits : number < base ^ width) :
    (List.leftpad width '0' (Nat.toDigits base number)).length = width := by
  have short := (Nat.length_toDigits_le_iff large positive).mpr fits
  simp only [List.leftpad, List.length_append, List.length_replicate]
  omega

theorem isNumeral_decimal (number : Nat) : isNumeral 10 (Nat.toDigits 10 number) = true :=
  isNumeral_toDigits 10 (by decide) (by decide) number

theorem value_decimal (number : Nat) : value 10 (Nat.toDigits 10 number) = number :=
  value_toDigits 10 (by decide) (by decide) number

theorem isNumeral_hex (width number : Nat) :
    isNumeral 16 (List.leftpad width '0' (Nat.toDigits 16 number)) = true :=
  isNumeral_leftpad 16 (by decide) (by decide) width number

theorem value_hex (width number : Nat) :
    value 16 (List.leftpad width '0' (Nat.toDigits 16 number)) = number :=
  value_leftpad 16 (by decide) (by decide) width number

theorem withSign_natAbs (number : Int) : withSign (decide (number < 0)) number.natAbs = number := by
  by_cases negative : number < 0
  · simp only [withSign, negative, decide_true, ↓reduceIte]
    omega
  · simp only [withSign, negative, decide_false, Bool.false_eq_true, ↓reduceIte]
    omega

@[simp] theorem natAbs_withSign (negative : Bool) (magnitude : Nat) :
    (withSign negative magnitude).natAbs = magnitude := by
  cases negative <;> simp [withSign]

end AsmLab.Numeral
