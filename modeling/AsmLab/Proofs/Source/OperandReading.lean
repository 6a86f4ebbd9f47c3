import AsmLab.Proofs.Source.OperandText

/-! Operands read back from their canonical text, at any column. The one that does not come back is a
memory reference with the lowest displacement. -/
namespace AsmLab.Source

variable {start : Nat}

theorem readRegister_text (register : Register) :
    readRegister ⟨start, register.text.toList⟩ =
      .ok (register, ⟨start + 1 + register.name.toList.length, []⟩) := by
  have name : Fragment.takeWhile ⟨start + 1, register.name.toList⟩ isIdent =
      ⟨start + 1, register.name.toList⟩ := by
    simpa using Fragment.takeWhile_append (start + 1) [] register.name_isName.2
      (by simp)
  have rest : Fragment.dropWhile ⟨start + 1, register.name.toList⟩ isIdent =
      ⟨start + 1 + register.name.toList.length, []⟩ := by
    simpa using Fragment.dropWhile_append (start + 1) [] register.name_isName.2
      (by simp)
  have nonempty : register.name.toList.isEmpty = false := by
    simpa using register.name_isName.ne_nil
  simp only [readRegister, Register.toList_text, Fragment.drop, List.drop_succ_cons, List.drop_zero,
    name, rest, Fragment.isEmpty, nonempty, Fragment.text, String.ofList_toList,
    Register.ofName?_name, Bool.false_eq_true, ↓reduceIte]

theorem readRegisterOperand_text {slot : Slot} {register : Register} (admitted : slot.register = true)
    (sameSize : register.size = slot.size) :
    readRegisterOperand slot ⟨start, register.text.toList⟩ = .ok (.register register) := by
  rw [readRegisterOperand, readRegister_text]
  simp [bind, Except.bind, pure, Except.pure, Fragment.isEmpty, admitted, sameSize]

theorem readLabelOperand_text {slot : Slot} {name : String} (admitted : slot.label = true)
    (spelled : IsName name.toList) :
    readLabelOperand slot ⟨start, name.toList⟩ = .ok (.label name) := by
  have whole := Fragment.takeWhile_append start [] spelled.2 (by simp)
  have rest := Fragment.dropWhile_append start [] spelled.2 (by simp)
  rw [List.append_nil] at whole rest
  simp [readLabelOperand, whole, rest, Fragment.isEmpty, admitted, Fragment.text]

theorem readAddressRegister_text {role : AddressRole} {context : Fragment} {register : Register}
    (quad : register.size = .quad) :
    readAddressRegister role context ⟨start, register.text.toList⟩ = .ok register := by
  have marked : Fragment.head? ⟨start, register.text.toList⟩ = some '%' := by
    simp [Fragment.head?, Register.toList_text]
  rw [readAddressRegister, if_neg (by simp [marked]), readRegister_text]
  simp [bind, Except.bind, pure, Except.pure, Fragment.isEmpty, quad]

/-- Parts without commas and outer blanks come back from the text between the commas. -/
theorem map_splitCommas_intercalate (start : Nat) {parts : List (List Char)} (nonempty : parts ≠ [])
    (whole : ∀ part ∈ parts, ',' ∉ part ∧ Trimmed part) :
    ((Fragment.splitCommas ⟨start, [','].intercalate parts⟩).map Fragment.trim).map
      Fragment.chars = parts := by
  induction parts generalizing start with
  | nil => exact absurd rfl nonempty
  | cons part rest ih =>
    obtain ⟨uncut, trimmed⟩ := whole part (by simp)
    cases rest with
    | nil =>
      simp [List.intercalate, Fragment.splitCommas_single uncut, Fragment.trim_eq_self trimmed]
    | cons next rest =>
      have tail := ih (start + (part.length + 1)) (by simp)
        fun other member => whole other (by simp [member])
      have shape : [','].intercalate (part :: next :: rest) =
          part ++ ',' :: [','].intercalate (next :: rest) := by
        simp [List.intercalate]
      rw [shape, Fragment.splitCommas_append uncut, List.map_cons, List.map_cons, tail,
        Fragment.trim_eq_self trimmed]

theorem readScale_decimal {scale : Nat} (listed : scale ∈ [1, 2, 4, 8]) :
    readScale ⟨start, (Numeral.decimal scale).toList⟩ = .ok scale := by
  simp only [List.mem_cons, List.not_mem_nil, or_false] at listed
  rcases listed with rfl | rfl | rfl | rfl <;> rfl

theorem exists_of_map_chars {parts : List Fragment} {first : List Char}
    {others : List (List Char)} (cut : parts.map Fragment.chars = first :: others) :
    ∃ start rest, parts = ⟨start, first⟩ :: rest ∧ rest.map Fragment.chars = others := by
  obtain ⟨head, rest, whole, same, cutRest⟩ := List.map_eq_cons_iff.mp cut
  exact ⟨head.start, rest, by rw [whole, ← same], cutRest⟩

theorem readAddress_parts (piece outer : Fragment) {reference : MemoryRef} {parts : List Fragment}
    (wellFormed : reference.WellFormed) (cut : parts.map Fragment.chars = reference.parts) :
    readAddress piece outer reference.displacement parts = .ok reference := by
  obtain ⟨displacement, base, index, scale⟩ := reference
  obtain ⟨baseQuad, indexQuad, scaled, unscaled⟩ := wellFormed
  obtain ⟨baseStart, afterBase, rfl, cutBase⟩ := exists_of_map_chars cut
  cases index with
  | none =>
    obtain rfl := List.map_eq_nil_iff.mp cutBase
    obtain rfl : scale = 1 := unscaled rfl
    simp [readAddress, readAddressRegister_text baseQuad, bind, Except.bind, pure, Except.pure]
  | some index =>
    have quad := indexQuad index rfl
    obtain ⟨indexStart, afterIndex, rfl, cutIndex⟩ := exists_of_map_chars cutBase
    by_cases one : scale = 1
    · subst one
      obtain rfl := List.map_eq_nil_iff.mp (cutIndex.trans (if_pos rfl))
      simp [readAddress, readAddressRegister_text baseQuad, readAddressRegister_text quad,
        bind, Except.bind, pure, Except.pure]
    · obtain ⟨scaleStart, afterScale, rfl, cutScale⟩ :=
        exists_of_map_chars (cutIndex.trans (if_neg one))
      obtain rfl := List.map_eq_nil_iff.mp cutScale
      simp [readAddress, readAddressRegister_text baseQuad, readAddressRegister_text quad,
        readScale_decimal scaled, bind, Except.bind, pure, Except.pure]

/-- What a place for memory reads from a reference: the reference, or a complaint about the
displacement if that is the lowest. -/
theorem readMemoryOperand_text {slot : Slot} {reference : MemoryRef} (admitted : slot.memory = true)
    (wellFormed : reference.WellFormed) :
    readMemoryOperand slot ⟨start, reference.text.toList⟩ =
      if reference.IsLowest then reject ⟨start, reference.offset⟩ .invalidDisplacement
      else .ok (.memory reference) := by
  have offsetPlain := plain_offset reference
  have beforeOpening : ∀ char ∈ reference.offset, decide (char ≠ '(') = true := by
    intro char member
    have opening := not_mem_of_forall '(' offsetPlain (by decide)
    simpa using fun same : char = '(' => opening (same ▸ member)
  have partsWhole : ∀ part ∈ reference.parts, ',' ∉ part ∧ Trimmed part := by
    intro part member
    have plain := plain_parts reference part member
    exact ⟨not_mem_of_forall ',' plain (by decide), trimmed_of_plain plain⟩
  have cut := map_splitCommas_intercalate (start + reference.offset.length + 1)
    (by simp [MemoryRef.parts]) partsWhole
  have outer := Fragment.dropWhile_append start ('(' :: [','].intercalate reference.parts)
    beforeOpening (by simp)
  have front := Fragment.takeWhile_append start ('(' :: [','].intercalate reference.parts)
    beforeOpening (by simp)
  rw [MemoryRef.toList_text, readMemoryOperand, if_neg (by simp [admitted]),
    Fragment.splitLast?_concat]
  simp only [outer, front, Fragment.trim_eq_self (trimmed_of_plain offsetPlain),
    Fragment.trim_eq_self trimmed_nil, Fragment.isEmpty, Fragment.drop,
    List.isEmpty_cons, List.isEmpty_nil, List.drop_succ_cons, List.drop_zero, Bool.not_true,
    Bool.false_eq_true, ↓reduceIte]
  have read (piece outer : Fragment) := readAddress_parts piece outer wellFormed cut
  by_cases zero : reference.displacement = 0
  · have notLowest : ¬ reference.IsLowest := by
      rw [MemoryRef.IsLowest, zero]
      decide
    rw [zero] at read
    rw [if_pos (by simp [MemoryRef.offset, zero]), if_neg notLowest, read]
    rfl
  · have spelled : reference.offset = (Numeral.signed reference.displacement.toInt).toList :=
      if_neg zero
    have nonempty : reference.offset.isEmpty = false := by
      simp [spelled, toList_signed, Nat.toDigits_ne_nil]
    have decoded := readDisplacement?_signed reference.displacement
    rw [← spelled] at decoded
    rw [nonempty, if_neg (by decide), decoded]
    by_cases lowest : reference.displacement.toInt = -(Numeral.signedLimit : Int)
    · rw [if_pos lowest, if_pos (show reference.IsLowest from lowest)]
    · rw [if_neg lowest, if_neg (show ¬ reference.IsLowest from lowest)]
      simp only [read]
      rfl

theorem readOperand_text {slot : Slot} {operand : Operand String} (admitted : slot.Admits operand)
    (spelled : ¬ operand.IsLowest) :
    readOperand slot ⟨start, operand.text.toList⟩ = .ok operand := by
  cases operand with
  | immediate constant =>
    have noAddress := not_mem_of_forall '(' (plain_immediate constant) (by decide)
    have dollar : Fragment.head? ⟨start, constant.text.toList⟩ = some '$' := by
      simp [Fragment.head?, Immediate.toList_text]
    rw [Operand.text, readOperand, if_neg noAddress, dollar]
    simp only [readConstantOperand, admitted.1, Bool.not_true, Bool.false_eq_true, ↓reduceIte,
      readImmediate_text slot.size.bits_le admitted.2]
  | register register =>
    have noAddress := not_mem_of_forall '(' (plain_register register) (by decide)
    have percent : Fragment.head? ⟨start, register.text.toList⟩ = some '%' := by
      simp [Fragment.head?, Register.toList_text]
    rw [Operand.text, readOperand, if_neg noAddress, percent]
    exact readRegisterOperand_text admitted.1 admitted.2
  | memory reference =>
    have address : '(' ∈ reference.text.toList := by simp [MemoryRef.toList_text]
    rw [Operand.text, readOperand, if_pos address, readMemoryOperand_text admitted.1 admitted.2]
    exact if_neg spelled
  | label name =>
    have plain : ∀ char ∈ name.toList, isPlain char = true :=
      fun char member => isPlain_of_isIdent (admitted.2.2 char member)
    have noAddress := not_mem_of_forall '(' plain (by decide)
    obtain ⟨head, first, starts⟩ := (Option.any_eq_true _ _).mp admitted.2.1
    rw [Operand.text, readOperand, if_neg noAddress,
      show Fragment.head? ⟨start, name.toList⟩ = some head from first]
    split
    · rename_i same
      obtain rfl := Option.some.inj same
      exact absurd starts (by decide)
    · rename_i same
      obtain rfl := Option.some.inj same
      exact absurd starts (by decide)
    · rename_i same
      obtain rfl := Option.some.inj same
      rw [if_pos starts]
      exact readLabelOperand_text admitted.1 admitted.2
    · rename_i absent
      cases absent

/-- The complaint about the reference that its canonical text does not spell. -/
theorem readOperand_lowest {slot : Slot} {operand : Operand String} (admitted : slot.Admits operand)
    (lowest : operand.IsLowest) :
    ∃ span, readOperand slot ⟨start, operand.text.toList⟩ = .error ⟨.invalidDisplacement, span⟩ := by
  cases operand with
  | memory reference =>
    have address : '(' ∈ reference.text.toList := by simp [MemoryRef.toList_text]
    rw [Operand.text, readOperand, if_pos address, readMemoryOperand_text admitted.1 admitted.2]
    exact ⟨_, if_pos lowest⟩
  | immediate _ => exact lowest.elim
  | register _ => exact lowest.elim
  | label _ => exact lowest.elim

end AsmLab.Source
