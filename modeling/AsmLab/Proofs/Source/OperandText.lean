import AsmLab.Proofs.Source.ConstantText

/-! The canonical text of operands: the letters it is made of and where it can be cut. -/
namespace AsmLab

open Source

theorem Gpr.mem_all (register : Gpr) : register ∈ all := by
  cases register <;> decide

theorem Register.mem_all (register : Register) : register ∈ all := by
  cases register with
  | low parent size => cases parent <;> cases size <;> decide
  | high byte => cases byte <;> decide

theorem Register.ofName?_name (register : Register) : ofName? register.name = some register := by
  have all : ∀ register ∈ all, ofName? register.name = some register := by decide +kernel
  exact all register register.mem_all

theorem Register.name_isName (register : Register) : IsName register.name.toList := by
  have all : ∀ register ∈ all, register.name.toList.head?.any isIdentStart = true ∧
      register.name.toList.all isIdent = true := by decide +kernel
  obtain ⟨start, rest⟩ := all register register.mem_all
  exact ⟨start, List.all_eq_true.mp rest⟩

theorem Register.toList_text (register : Register) :
    register.text.toList = '%' :: register.name.toList := by
  simp [text]

/-- The parts between the parentheses of an address. -/
def MemoryRef.parts (reference : MemoryRef) : List (List Char) :=
  reference.base.text.toList :: reference.index.elim [] fun index =>
    index.text.toList ::
      if reference.scale = 1 then [] else [(Numeral.decimal reference.scale).toList]

/-- What stands in front of the parentheses. -/
def MemoryRef.offset (reference : MemoryRef) : List Char :=
  if reference.displacement = 0 then [] else (Numeral.signed reference.displacement.toInt).toList

theorem MemoryRef.toList_text (reference : MemoryRef) :
    reference.text.toList = reference.offset ++ '(' :: [','].intercalate reference.parts ++ [')'] := by
  obtain ⟨displacement, base, index, scale⟩ := reference
  unfold text offset parts
  cases index with
  | none => split <;> simp
  | some index => by_cases one : scale = 1 <;> split <;> simp [List.intercalate]

/-- Letters of operands that bracket and separate nothing. -/
def Source.isPlain (char : Char) : Bool :=
  isIdent char || char = '$' || char = '-' || char = '%'

namespace Source

theorem isPlain_of_isIdent {char : Char} (ident : isIdent char = true) : isPlain char = true := by
  simp [isPlain, ident]

theorem isBlank_of_isPlain {char : Char} (plain : isPlain char = true) : isBlank char = false := by
  simp only [isPlain, Bool.or_eq_true, decide_eq_true_eq] at plain
  rcases plain with ((ident | same) | same) | same
  · exact isBlank_of_isIdent ident
  all_goals subst same; decide

theorem trimmed_of_plain {chars : List Char} (plain : ∀ char ∈ chars, isPlain char = true) :
    Trimmed chars :=
  ⟨fun char first => isBlank_of_isPlain (plain char (List.mem_of_head? first)),
    fun char last => isBlank_of_isPlain (plain char (List.mem_of_getLast? last))⟩

theorem plain_register (register : Register) :
    ∀ char ∈ register.text.toList, isPlain char = true := by
  intro char member
  rw [Register.toList_text] at member
  rcases List.mem_cons.mp member with same | member
  · subst same; decide
  · exact isPlain_of_isIdent (register.name_isName.2 char member)

theorem plain_decimal (number : Nat) :
    ∀ char ∈ Nat.toDigits 10 number, isPlain char = true := by
  intro char member
  have printed := Numeral.isNumeral_decimal number
  exact isPlain_of_isIdent (Numeral.isIdent_of_isDigit (Numeral.isDigit_of_mem printed member))

theorem plain_signed (number : Int) :
    ∀ char ∈ (Numeral.signed number).toList, isPlain char = true := by
  intro char member
  rw [toList_signed] at member
  rcases List.mem_append.mp member with sign | digit
  · split at sign
    · obtain rfl := List.mem_singleton.mp sign
      decide
    · cases sign
  · exact plain_decimal _ char digit

theorem plain_immediate (immediate : Immediate) :
    ∀ char ∈ immediate.text.toList, isPlain char = true := by
  intro char member
  rw [Immediate.toList_text] at member
  rcases List.mem_cons.mp member with same | member
  · subst same; decide
  · rcases List.mem_append.mp member with sign | digit
    · split at sign
      · obtain rfl := List.mem_singleton.mp sign
        decide
      · cases sign
    · exact isPlain_of_isIdent (Immediate.isIdent_of_mem_digits digit)

theorem plain_offset (reference : MemoryRef) :
    ∀ char ∈ reference.offset, isPlain char = true := by
  intro char member
  unfold MemoryRef.offset at member
  split at member
  · cases member
  · exact plain_signed _ char member

theorem plain_parts (reference : MemoryRef) :
    ∀ part ∈ reference.parts, ∀ char ∈ part, isPlain char = true := by
  intro part member
  unfold MemoryRef.parts at member
  rcases List.mem_cons.mp member with same | member
  · subst same
    exact plain_register reference.base
  · cases indexed : reference.index with
    | none => simp [indexed] at member
    | some index =>
      simp only [indexed, Option.elim_some] at member
      rcases List.mem_cons.mp member with same | member
      · subst same
        exact plain_register index
      · split at member
        · cases member
        · obtain rfl := List.mem_singleton.mp member
          simpa [Numeral.decimal] using plain_decimal reference.scale

end Source

/-- Letters of operands, brackets and commas included. -/
def Source.isOperandChar (char : Char) : Bool :=
  isPlain char || char = '(' || char = ',' || char = ')'

/-- What the cutting of a line needs of the text of an operand. -/
structure Source.IsOperandText (chars : List Char) : Prop where
  nonempty : chars ≠ []
  trimmed : Trimmed chars
  unsplit : Fragment.Unsplit Fragment.parenthesisNesting 0 chars
  letters : ∀ char ∈ chars, isOperandChar char = true

namespace Source

theorem flat_of_plain {char : Char} (plain : isPlain char = true) :
    Fragment.parenthesisNesting char = 0 ∧ char ≠ ',' := by
  have other {bracket : Char} (notPlain : isPlain bracket = false) : char ≠ bracket := by
    intro same
    simp [same, notPlain] at plain
  have opening : char ≠ '(' := other (by decide)
  have closing : char ≠ ')' := other (by decide)
  exact ⟨by simp [Fragment.parenthesisNesting, opening, closing], other (by decide)⟩

theorem isBlank_of_isOperandChar {char : Char} (letter : isOperandChar char = true) :
    isBlank char = false := by
  simp only [isOperandChar, Bool.or_eq_true, decide_eq_true_eq] at letter
  rcases letter with ((plain | same) | same) | same
  · exact isBlank_of_isPlain plain
  all_goals subst same; decide

theorem IsOperandText.of_plain {chars : List Char} (nonempty : chars ≠ [])
    (plain : ∀ char ∈ chars, isPlain char = true) : IsOperandText chars where
  nonempty := nonempty
  trimmed := trimmed_of_plain plain
  unsplit := by
    rw [← List.append_nil chars, Fragment.unsplit_append_flat]
    · rfl
    · intro char member
      obtain ⟨flat, noComma⟩ := flat_of_plain (plain char member)
      exact ⟨flat, fun comma => noComma comma.1⟩
  letters char member := by simp [isOperandChar, plain char member]

theorem mem_intercalate {separator : Char} {parts : List (List Char)} {char : Char}
    (member : char ∈ [separator].intercalate parts) :
    char = separator ∨ ∃ part ∈ parts, char ∈ part := by
  induction parts with
  | nil => cases member
  | cons part rest ih =>
    cases rest with
    | nil =>
      rw [List.intercalate_singleton] at member
      exact .inr ⟨part, by simp, member⟩
    | cons next rest =>
      rw [List.intercalate_cons_cons] at member
      rcases List.mem_append.mp member with front | behind
      · rcases List.mem_append.mp front with own | separates
        · exact .inr ⟨part, by simp, own⟩
        · exact .inl (List.mem_singleton.mp separates)
      · rcases ih behind with separates | ⟨other, listed, inside⟩
        · exact .inl separates
        · exact .inr ⟨other, List.mem_cons_of_mem part listed, inside⟩

/-- Inside of the parentheses of an address are plain letters and commas. -/
theorem plain_or_comma_of_mem_parts {reference : MemoryRef} {char : Char}
    (member : char ∈ [','].intercalate reference.parts) : isPlain char = true ∨ char = ',' := by
  rcases mem_intercalate member with comma | ⟨part, listed, inside⟩
  · exact .inr comma
  · exact .inl (plain_parts reference part listed char inside)

theorem IsOperandText.of_memory (reference : MemoryRef) :
    IsOperandText reference.text.toList := by
  have letters : ∀ char ∈ reference.text.toList, isOperandChar char = true := by
    intro char member
    rw [MemoryRef.toList_text] at member
    simp only [List.mem_append, List.mem_cons, List.not_mem_nil, or_false] at member
    rcases member with (offset | opening | inside) | closing
    · simp [isOperandChar, plain_offset reference char offset]
    · simp [isOperandChar, opening]
    · rcases plain_or_comma_of_mem_parts inside with plain | comma
      · simp [isOperandChar, plain]
      · simp [isOperandChar, comma]
    · simp [isOperandChar, closing]
  have unblank (char : Char) (member : char ∈ reference.text.toList) : isBlank char = false :=
    isBlank_of_isOperandChar (letters char member)
  refine ⟨by simp [MemoryRef.toList_text], ?_, ?_, letters⟩
  · exact ⟨fun char first => unblank char (List.mem_of_head? first),
      fun char last => unblank char (List.mem_of_getLast? last)⟩
  · rw [MemoryRef.toList_text, List.append_assoc, Fragment.unsplit_append_flat]
    · refine ⟨by decide, ?_⟩
      change Fragment.Unsplit _ 1 ([','].intercalate reference.parts ++ [')'])
      rw [Fragment.unsplit_append_flat]
      · exact ⟨by decide, rfl⟩
      · intro char member
        refine ⟨?_, fun comma => absurd comma.2 (by decide)⟩
        rcases plain_or_comma_of_mem_parts member with plain | comma
        · exact (flat_of_plain plain).1
        · subst comma; rfl
    · intro char member
      obtain ⟨flat, noComma⟩ := flat_of_plain (plain_offset reference char member)
      exact ⟨flat, fun comma => noComma comma.1⟩

theorem IsOperandText.of_admits {slot : Slot} {operand : Operand String}
    (admitted : slot.Admits operand) : IsOperandText operand.text.toList := by
  cases operand with
  | immediate constant =>
    exact .of_plain (by simp [Operand.text, Immediate.toList_text]) (plain_immediate constant)
  | register register =>
    exact .of_plain (by simp [Operand.text, Register.toList_text]) (plain_register register)
  | memory reference => exact .of_memory reference
  | label name =>
    exact .of_plain admitted.2.ne_nil
      fun char member => isPlain_of_isIdent (admitted.2.2 char member)

theorem dollar_not_mem_offset (reference : MemoryRef) : '$' ∉ reference.offset := by
  have numeral := Numeral.isNumeral_decimal
    reference.displacement.toInt.natAbs
  unfold MemoryRef.offset
  split
  · simp
  · rw [toList_signed, List.mem_append, not_or]
    refine ⟨?_, not_mem_of_isNumeral '$' numeral (by decide)⟩
    split <;> simp

/-- Only immediates start with a dollar. -/
theorem head?_text_ne_dollar {slot : Slot} {operand : Operand String}
    (admitted : slot.Admits operand) (noConstant : slot.constant = false) :
    operand.text.toList.head? ≠ some '$' := by
  cases operand with
  | immediate constant => simp [admitted.1] at noConstant
  | register register => simp [Operand.text, Register.toList_text]
  | memory reference =>
    intro dollar
    rw [Operand.text, MemoryRef.toList_text, List.append_assoc, List.head?_append] at dollar
    cases first : reference.offset.head? with
    | none => simp [first] at dollar
    | some head =>
      rw [first] at dollar
      have same : reference.offset.head? = some '$' := first.trans dollar
      exact dollar_not_mem_offset reference (List.mem_of_head? same)
  | label name =>
    intro dollar
    exact absurd (admitted.2.2 '$' (List.mem_of_head? dollar)) (by decide)

end Source

end AsmLab
