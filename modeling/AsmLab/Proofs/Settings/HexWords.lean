import AsmLab.Proofs.Source.DisplacementGrammar
import AsmLab.Settings

/-! Which texts are read as hexadecimal words. The form that is meant has a marker or none, and then
digits with underscores anywhere among them. Beyond it a plus sign is let through in front of the
digits, since the reader of bounded numerals allows one. -/
namespace AsmLab

open Source (WritesNumber writesNumber_iff)

namespace Numeral

variable {base limit start number : Nat} {digits : List Char}

/-- The number that digits continue from `start`. -/
def valueFrom (base start : Nat) (digits : List Char) : Nat :=
  digits.foldl (fun total char => total * base + (digitBelow? base char).getD 0) start

theorem le_valueFrom (positive : 0 < base) (start : Nat) (digits : List Char) :
    start ≤ valueFrom base start digits := by
  induction digits generalizing start with
  | nil => exact le_rfl
  | cons char rest ih =>
    have grown : start ≤ start * base + (digitBelow? base char).getD 0 :=
      (Nat.le_mul_of_pos_right start positive).trans (Nat.le_add_right _ _)
    exact grown.trans (ih _)

/-- A number only grows with its digits, so it is below the limit if it is so in the end. -/
theorem continueBelow_eq_ok_iff (positive : 0 < base) (below : start < limit) :
    continueBelow base limit start digits = .ok number ↔
      (∀ char ∈ digits, isDigit base char = true) ∧ valueFrom base start digits = number ∧
        number < limit := by
  induction digits generalizing start with
  | nil =>
    rw [continueBelow, Except.ok.injEq]
    constructor
    · rintro rfl
      exact ⟨List.forall_mem_nil _, rfl, below⟩
    · exact fun reached => reached.2.1
  | cons char rest ih =>
    rw [continueBelow, List.forall_mem_cons, isDigit]
    cases found : digitBelow? base char with
    | none => simp
    | some digit =>
      have next : valueFrom base start (char :: rest) = valueFrom base (start * base + digit) rest := by
        rw [valueFrom, List.foldl_cons, found]
        rfl
      rw [next]
      by_cases small : start * base + digit < limit
      · simp only [small, if_true]
        rw [ih small]
        simp
      · simp only [small, if_false]
        refine iff_of_false (by simp) ?_
        rintro ⟨-, rfl, inside⟩
        exact small ((le_valueFrom positive _ rest).trans_lt inside)

theorem continueBelow_zero_iff (positive : 0 < base) (small : base ≤ 16) (room : 0 < limit)
    (nonempty : digits ≠ []) :
    continueBelow base limit 0 digits = .ok number ↔
      WritesNumber base digits number ∧ number < limit := by
  rw [continueBelow_eq_ok_iff positive room, writesNumber_iff small, Source.isNumeral_iff, and_assoc,
    and_assoc]
  exact (and_iff_right nonempty).symm

/-- A bounded numeral may have one plus sign in front of it. -/
theorem readBelow_eq_ok_iff (positive : 0 < base) (small : base ≤ 16) (room : 0 < limit) :
    readBelow base limit digits = .ok number ↔
      (WritesNumber base digits number ∨
          ∃ rest, digits = '+' :: rest ∧ WritesNumber base rest number) ∧ number < limit := by
  have unsigned {rest : List Char} : ¬ WritesNumber base ('+' :: rest) number :=
    fun written => written.head?_ne small false rfl
  have empty : ¬ WritesNumber base [] number := fun written => written.1 rfl
  fun_cases readBelow base limit digits with
  | case1 => simp [empty]
  | case2 => simp [empty, unsigned]
  | case3 rest nonempty =>
    rw [continueBelow_zero_iff positive small room nonempty]
    simp [unsigned]
  | case4 _ nonempty _ other =>
    have bare : ¬ ∃ rest, digits = '+' :: rest ∧ WritesNumber base rest number :=
      fun ⟨rest, same, _⟩ => other rest same
    rw [continueBelow_zero_iff positive small room nonempty, or_iff_left bare]

end Numeral

namespace Text

/-- What is cut off at the ends is whitespace. -/
theorem exists_trim_eq (chars : List Char) :
    ∃ left right, chars = left ++ trim chars ++ right ∧
      (∀ char ∈ left, isWhitespace char = true) ∧ ∀ char ∈ right, isWhitespace char = true := by
  let rest := chars.dropWhile isWhitespace
  refine ⟨chars.takeWhile isWhitespace, (rest.reverse.takeWhile isWhitespace).reverse, ?_,
    fun _ => List.mem_takeWhile_imp, ?_⟩
  · have ends : trim chars ++ (rest.reverse.takeWhile isWhitespace).reverse = rest := by
      rw [trim, ← List.reverse_append, List.takeWhile_append_dropWhile, List.reverse_reverse]
    rw [List.append_assoc, ends, List.takeWhile_append_dropWhile]
  · intro char member
    exact List.mem_takeWhile_imp (List.mem_reverse.mp member)

/-- Whitespace around a text without any is cut off as a whole. -/
theorem trim_eq_of_padded {left body right : List Char}
    (before : ∀ char ∈ left, isWhitespace char = true)
    (solid : ∀ char ∈ body, isWhitespace char = false)
    (behind : ∀ char ∈ right, isWhitespace char = true) : trim (left ++ body ++ right) = body := by
  have kept {part rest : List Char} (inside : ∀ char ∈ part, isWhitespace char = false)
      (blank : ∀ char ∈ rest, isWhitespace char = true) (nonempty : part ≠ []) :
      (part ++ rest).dropWhile isWhitespace = part ++ rest := by
    obtain ⟨char, part, rfl⟩ := List.exists_cons_of_ne_nil nonempty
    exact List.dropWhile_cons_of_neg (by simp [inside])
  rw [trim, List.append_assoc, List.dropWhile_append_of_pos before]
  by_cases empty : body = []
  · subst empty
    have none : right.dropWhile isWhitespace = [] := List.dropWhile_eq_nil_iff.mpr behind
    simp [none]
  · rw [kept solid behind empty, List.reverse_append,
      List.dropWhile_append_of_pos (by simpa using behind)]
    have ended : (body.reverse ++ []).dropWhile isWhitespace = body.reverse ++ [] :=
      kept (by simpa using solid) (by simp) (by simpa using empty)
    rw [List.append_nil] at ended
    rw [ended, List.reverse_reverse]

end Text

namespace Settings

/-- Hexadecimal digits with underscores anywhere among them, and their number. -/
def WritesGrouped (chars : List Char) (number : Nat) : Prop :=
  WritesNumber 16 (chars.filter (· ≠ '_')) number

/-- The same behind a plus sign. -/
def WritesPlus (chars : List Char) (number : Nat) : Prop :=
  ∃ digits, chars.filter (· ≠ '_') = '+' :: digits ∧ WritesNumber 16 digits number

/-- A written number behind a hexadecimal marker, or without one. -/
inductive Marked (writes : List Char → Nat → Prop) : List Char → Nat → Prop where
  | bare {chars : List Char} {number : Nat} (written : writes chars number) :
      Marked writes chars number
  | marked {marker : Char} {chars : List Char} {number : Nat} (either : marker = 'x' ∨ marker = 'X')
      (written : writes chars number) : Marked writes ('0' :: marker :: chars) number

/-- The spellings of a hexadecimal number, with whitespace around them. -/
def SpellsHex (writes : List Char → Nat → Prop) (text : String) (number : Nat) : Prop :=
  ∃ left body right, text.toList = left ++ body ++ right ∧ Marked writes body number ∧
    (∀ char ∈ left, Text.isWhitespace char = true) ∧ ∀ char ∈ right, Text.isWhitespace char = true

/-- A way to write the number itself, which holds no whitespace and cannot be taken for a marker. -/
structure Writing (writes : List Char → Nat → Prop) : Prop where
  solid {chars : List Char} {number : Nat} (written : writes chars number) :
    ∀ char ∈ chars, Text.isWhitespace char = false
  unmarked {marker : Char} {chars : List Char} {number : Nat} (either : marker = 'x' ∨ marker = 'X') :
    ¬ writes ('0' :: marker :: chars) number

section Writings

variable {chars : List Char} {number : Nat}

theorem isWhitespace_of_writes {digits : List Char} (written : WritesNumber 16 digits number) :
    ∀ char ∈ digits, Text.isWhitespace char = false := by
  have table : ∀ digit : Fin 16, Text.isWhitespace (Nat.digitChar digit) = false ∧
      Text.isWhitespace (Nat.digitChar digit).toUpper = false := by decide
  intro char member
  have numeral := ((writesNumber_iff le_rfl).mp written).1
  obtain ⟨digit, found⟩ := Option.isSome_iff_exists.mp (Numeral.isDigit_of_mem numeral member)
  obtain ⟨below, same⟩ := (Source.writesDigit_iff le_rfl).mpr found
  rcases same with rfl | rfl
  · exact (table ⟨digit, below⟩).1
  · exact (table ⟨digit, below⟩).2

/-- A character is an underscore or is left when the underscores are taken out. -/
theorem isWhitespace_of_filter
    (solid : ∀ char ∈ chars.filter (· ≠ '_'), Text.isWhitespace char = false) :
    ∀ char ∈ chars, Text.isWhitespace char = false := by
  intro char member
  by_cases underscore : char = '_'
  · subst underscore
    decide
  · exact solid char (List.mem_filter.mpr ⟨member, by simpa using underscore⟩)

theorem writing_grouped : Writing WritesGrouped where
  solid written := isWhitespace_of_filter (isWhitespace_of_writes written)
  unmarked := by
    intro marker chars number either written
    have numeral := ((writesNumber_iff le_rfl).mp written).1
    have kept : marker ∈ ('0' :: marker :: chars).filter (· ≠ '_') := by
      rcases either with rfl | rfl <;> simp
    have digit := Numeral.isDigit_of_mem numeral kept
    rcases either with rfl | rfl <;> exact absurd digit (by decide)

theorem writing_plus : Writing WritesPlus where
  solid := by
    intro chars number written
    obtain ⟨digits, same, written⟩ := written
    apply isWhitespace_of_filter
    rw [same]
    exact List.forall_mem_cons.mpr ⟨by decide, isWhitespace_of_writes written⟩
  unmarked := by
    intro marker chars number either written
    obtain ⟨digits, same, -⟩ := written
    simp at same

theorem Marked.solid {writes : List Char → Nat → Prop} (writing : Writing writes)
    (marked : Marked writes chars number) : ∀ char ∈ chars, Text.isWhitespace char = false := by
  cases marked with
  | bare written => exact writing.solid written
  | marked either written =>
    rw [List.forall_mem_cons, List.forall_mem_cons]
    refine ⟨by decide, ?_, writing.solid written⟩
    rcases either with rfl | rfl <;> decide

theorem marked_iff {writes : List Char → Nat → Prop} (writing : Writing writes) :
    Marked writes chars number ↔ writes (dropHexMarker chars) number := by
  constructor
  · intro marked
    cases marked with
    | bare written =>
      fun_cases dropHexMarker chars with
      | case1 => exact absurd written (writing.unmarked (.inl rfl))
      | case2 => exact absurd written (writing.unmarked (.inr rfl))
      | case3 => exact written
    | marked either written =>
      rcases either with rfl | rfl <;> exact written
  · fun_cases dropHexMarker chars with
    | case1 => exact .marked (.inl rfl)
    | case2 => exact .marked (.inr rfl)
    | case3 => exact .bare

/-- Without the whitespace and the marker the number itself is left. -/
theorem spellsHex_iff {writes : List Char → Nat → Prop} (writing : Writing writes) {text : String} :
    SpellsHex writes text number ↔ writes (dropHexMarker (Text.trim text.toList)) number := by
  rw [← marked_iff writing]
  constructor
  · intro spells
    obtain ⟨left, body, right, whole, marked, before, behind⟩ := spells
    rwa [whole, Text.trim_eq_of_padded before (marked.solid writing) behind]
  · intro marked
    obtain ⟨left, right, whole, before, behind⟩ := Text.exists_trim_eq text.toList
    exact ⟨left, _, right, whole, marked, before, behind⟩

end Writings

variable {text : String} {number : Nat} {word : BitVec 64}

theorem SpellsHex.not_plus {other : Nat} (spells : SpellsHex WritesGrouped text number) :
    ¬ SpellsHex WritesPlus text other := by
  rw [spellsHex_iff writing_grouped] at spells
  rw [spellsHex_iff writing_plus]
  rintro ⟨digits, same, -⟩
  rw [WritesGrouped, same] at spells
  exact spells.head?_ne le_rfl false rfl

theorem readHex_eq_ok_iff :
    readHex text = .ok word ↔ ∃ number < 2 ^ 64,
      (SpellsHex WritesGrouped text number ∨ SpellsHex WritesPlus text number) ∧
        word = BitVec.ofNat 64 number := by
  have bounded (digits : List Char) (number : Nat) :
      Numeral.readBelow 16 Numeral.wordLimit digits = .ok number ↔
        (WritesNumber 16 digits number ∨
          ∃ rest, digits = '+' :: rest ∧ WritesNumber 16 rest number) ∧ number < Numeral.wordLimit := by
    apply Numeral.readBelow_eq_ok_iff <;> decide
  have opened : readHex text = .ok word ↔ ∃ number,
      Numeral.readBelow 16 Numeral.wordLimit
          ((dropHexMarker (Text.trim text.toList)).filter (· ≠ '_')) = .ok number ∧
        word = BitVec.ofNat 64 number := by
    unfold readHex
    dsimp only
    generalize (dropHexMarker (Text.trim text.toList)).filter (· ≠ '_') = digits
    cases Numeral.readBelow 16 Numeral.wordLimit digits with
    | ok number => simpa using eq_comm
    | error reason => cases reason <;> simp
  rw [opened]
  apply exists_congr
  intro number
  rw [bounded, spellsHex_iff writing_grouped, spellsHex_iff writing_plus, and_assoc, and_left_comm]
  rfl

/-- A text is read as a word exactly if it is spelled as a hexadecimal number below `2 ^ 64`, unless
there is a plus sign in front of its digits. With one it is read as well. -/
theorem readHex_words (text : String) :
    (∀ word, readHex text = .ok word ↔ ∃ number < 2 ^ 64,
        (SpellsHex WritesGrouped text number ∨ SpellsHex WritesPlus text number) ∧
          word = BitVec.ofNat 64 number) ∧
      ((∀ word, readHex text = .ok word ↔ ∃ number < 2 ^ 64,
          SpellsHex WritesGrouped text number ∧ word = BitVec.ofNat 64 number) ↔
        ¬ ∃ number < 2 ^ 64, SpellsHex WritesPlus text number) := by
  refine ⟨fun _ => readHex_eq_ok_iff, ?_⟩
  constructor
  · rintro same ⟨number, small, plus⟩
    have read : readHex text = .ok (BitVec.ofNat 64 number) :=
      readHex_eq_ok_iff.mpr ⟨number, small, .inr plus, rfl⟩
    obtain ⟨other, -, spells, -⟩ := (same _).mp read
    exact spells.not_plus plus
  · intro unsigned word
    rw [readHex_eq_ok_iff]
    apply exists_congr
    intro number
    apply and_congr_right
    intro small
    have bare : ¬ SpellsHex WritesPlus text number := fun plus => unsigned ⟨number, small, plus⟩
    rw [or_iff_left bare]

/-- A number with a plus sign is read although it is not spelled as a word. -/
theorem not_readHex_words :
    ¬ ∀ (text : String) (word : BitVec 64), readHex text = .ok word ↔ ∃ number < 2 ^ 64,
      SpellsHex WritesGrouped text number ∧ word = BitVec.ofNat 64 number := by
  intro all
  have read : readHex "+5" = .ok 5 := by decide +kernel
  obtain ⟨number, -, spells, -⟩ := (all "+5" 5).mp read
  have five : WritesNumber 16 ['5'] 5 := (writesNumber_iff le_rfl).mpr ⟨by decide, by decide⟩
  have plus : SpellsHex WritesPlus "+5" 5 :=
    (spellsHex_iff writing_plus).mpr ⟨['5'], by decide, five⟩
  exact spells.not_plus plus

end Settings

end AsmLab
