import AsmLab.Proofs.Source.ConstantText
import AsmLab.Proofs.Source.NumberGrammar
import AsmLab.Toml.Reader

/-! Strings and natural numbers read back from their written form. A string may hold any character, since
those that would end it are escaped; a number is not taken for a date or for one in another base. -/
namespace AsmLab.Toml

section Strings

theorem isControl_lt {char : Char} (control : isControl char = true) : char.toNat < 16 ^ 4 := by
  simp only [isControl, Bool.or_eq_true, Bool.and_eq_true, decide_eq_true_eq] at control
  omega

theorem scalar?_leftpad (width : Nat) (char : Char) :
    scalar? (List.leftpad width '0' (Nat.toDigits 16 char.toNat)) = some char := by
  have numeral := Numeral.isNumeral_hex width char.toNat
  have value := Numeral.value_hex width char.toNat
  have valid :
      Nat.isValidChar (Numeral.value 16 (List.leftpad width '0' (Nat.toDigits 16 char.toNat))) := by
    rw [value]
    exact char.valid
  rw [scalar?, dif_pos ⟨numeral, valid⟩]
  exact congrArg some (Char.ext (UInt32.toNat_inj.mp value))

/-- Four hexadecimal digits are enough for a control character. -/
theorem readEscape_control {char : Char} (control : isControl char = true) (rest : List Char) :
    readEscape ('u' :: ((Numeral.padLeft 4 '0' (Numeral.hex char.toNat)).toList ++ rest)) =
      some (char, rest) := by
  let digits := List.leftpad 4 '0' (Nat.toDigits 16 char.toNat)
  have length : digits.length = 4 :=
    Numeral.length_leftpad_toDigits 16 (by decide) (by decide) (isControl_lt control)
  have found : scalar? digits = some char := scalar?_leftpad 4 char
  have text : (Numeral.padLeft 4 '0' (Numeral.hex char.toNat)).toList = digits := by
    simp [Numeral.padLeft, Numeral.hex, digits]
  obtain ⟨a, b, c, d, same⟩ := List.length_eq_four.mp length
  rw [same] at found
  rw [text, same]
  simp [readEscape, found]

/-- A character with the string behind it. -/
def prepend (char : Char) (result : List Char × List Char) : List Char × List Char :=
  (char :: result.1, result.2)

theorem readQuoted_plain (fuel : Nat) {char : Char} (noQuote : char ≠ '"') (noBackslash : char ≠ '\\')
    (visible : isControl char = false) (rest : List Char) :
    readQuoted (fuel + 1) (char :: rest) = (readQuoted fuel rest).map (prepend char) := by
  rw [readQuoted, if_neg (by simp [visible])]
  · cases readQuoted fuel rest <;> rfl
  · simpa using noQuote
  · simpa using noBackslash

theorem readQuoted_escape (fuel : Nat) {char : Char} {escape rest : List Char}
    (escapes : readEscape escape = some (char, rest)) :
    readQuoted (fuel + 1) ('\\' :: escape) = (readQuoted fuel rest).map (prepend char) := by
  rw [readQuoted, escapes, Option.bind_eq_bind, Option.bind_some]
  dsimp only
  cases readQuoted fuel rest <;> rfl

theorem readQuoted_escapeChar (fuel : Nat) (char : Char) (rest : List Char) :
    readQuoted (fuel + 1) (escapeChar char ++ rest) = (readQuoted fuel rest).map (prepend char) := by
  unfold escapeChar
  split_ifs with quote backslash newline tab carriageReturn control
  · subst quote
    exact readQuoted_escape fuel rfl
  · subst backslash
    exact readQuoted_escape fuel rfl
  · subst newline
    exact readQuoted_escape fuel rfl
  · subst tab
    exact readQuoted_escape fuel rfl
  · subst carriageReturn
    exact readQuoted_escape fuel rfl
  · exact readQuoted_escape fuel (readEscape_control control rest)
  · exact readQuoted_plain fuel quote backslash (Bool.eq_false_iff.mpr control) rest

/-- What is written between double quotes is read back. -/
theorem readQuoted_escaped {fuel : Nat} (chars rest : List Char) (enough : chars.length < fuel) :
    readQuoted fuel (chars.flatMap escapeChar ++ '"' :: rest) = some (chars, rest) := by
  induction chars generalizing fuel with
  | nil =>
    obtain ⟨fuel, rfl⟩ := Nat.exists_eq_add_one_of_ne_zero enough.ne'
    rfl
  | cons char chars ih =>
    obtain ⟨fuel, rfl⟩ := Nat.exists_eq_add_one_of_ne_zero (Nat.ne_zero_of_lt enough)
    rw [List.flatMap_cons, List.append_assoc, readQuoted_escapeChar, ih (Nat.lt_of_succ_lt_succ enough)]
    rfl

variable {rest : List Char}

theorem toList_quoted (text : String) :
    (quoted text).toList = '"' :: (text.toList.flatMap escapeChar ++ ['"']) := by
  simp [quoted]

theorem length_le_flatMap_escapeChar (chars : List Char) :
    chars.length ≤ (chars.flatMap escapeChar).length := by
  induction chars with
  | nil => exact le_rfl
  | cons char chars ih =>
    have nonempty : 1 ≤ (escapeChar char).length := by
      unfold escapeChar
      split_ifs <;> simp
    rw [List.flatMap_cons, List.length_append, List.length_cons]
    omega

theorem readLineString_quoted (text : String) (rest : List Char) :
    readLineString ((quoted text).toList ++ rest) = some (text, rest) := by
  have enough : text.toList.length < (text.toList.flatMap escapeChar ++ '"' :: rest).length := by
    have escaped := length_le_flatMap_escapeChar text.toList
    rw [List.length_append, List.length_cons]
    omega
  rw [toList_quoted, List.cons_append, List.append_assoc, List.singleton_append, readLineString,
    readQuoted_escaped text.toList rest enough]
  simp

theorem readString_of_single {body : List Char} (single : ∀ more, body ≠ '"' :: '"' :: more) :
    readString ('"' :: body) = readLineString ('"' :: body) := by
  unfold readString
  split
  · rename_i more same
    exact absurd (List.cons.inj same).2 (single more)
  · rename_i same
    cases same
  · rfl

theorem exists_escapeChar_cons (char : Char) :
    ∃ first behind, escapeChar char = first :: behind ∧ first ≠ '"' := by
  unfold escapeChar
  split_ifs with quote
  all_goals exact ⟨_, _, rfl, by first | decide | exact quote⟩

/-- An escaped text does not start with a double quote, so three of them do not stand together. -/
theorem readString_quoted (text : String) (other : rest.head? ≠ some '"') :
    readString ((quoted text).toList ++ rest) = some (text, rest) := by
  rw [← readLineString_quoted text rest, toList_quoted, List.cons_append, List.append_assoc,
    List.singleton_append]
  apply readString_of_single
  intro more same
  cases chars : text.toList with
  | nil =>
    rw [chars, List.flatMap_nil, List.nil_append] at same
    rw [(List.cons.inj same).2] at other
    exact other rfl
  | cons char others =>
    obtain ⟨first, behind, escaped, noQuote⟩ := exists_escapeChar_cons char
    rw [chars, List.flatMap_cons, escaped] at same
    exact noQuote (List.cons.inj same).1

end Strings

section Dates

open Numeral (isDigit)

variable {chars rest after : List Char}

/-- The mark behind some digits is the first character that is no digit. -/
theorem head?_of_readNumber {count number : Nat} {mark : Char}
    (read : Date.readNumber count chars = some (number, rest))
    (marked : Date.after? mark rest = some after) (other : isDigit 10 mark = false) :
    (chars.dropWhile (isDigit 10)).head? = some mark := by
  unfold Date.readNumber at read
  dsimp only at read
  split at read
  · rename_i digits
    obtain ⟨-, rfl⟩ := Prod.mk.inj (Option.some.inj read)
    rw [Bool.and_eq_true, List.all_eq_true] at digits
    have split := List.take_append_drop count chars
    unfold Date.after? at marked
    split at marked
    · rename_i first behind same
      split at marked
      · rename_i found
        rw [← split, List.dropWhile_append_of_pos digits.2, same, found,
          List.dropWhile_cons_of_neg (by simp [other])]
        rfl
      · cases marked
    · cases marked
  · cases read

theorem head?_of_afterDay? (dated : Date.afterDay? chars = some rest) :
    (chars.dropWhile (isDigit 10)).head? = some '-' := by
  obtain ⟨⟨year, behind⟩, read, dated⟩ := Option.bind_eq_some_iff.mp dated
  obtain ⟨after, marked, dated⟩ := Option.bind_eq_some_iff.mp dated
  exact head?_of_readNumber read marked (by decide)

theorem head?_of_afterTime? (timed : Date.afterTime? chars = some rest) :
    (chars.dropWhile (isDigit 10)).head? = some ':' := by
  obtain ⟨⟨hour, behind⟩, read, timed⟩ := Option.bind_eq_some_iff.mp timed
  obtain ⟨after, marked, timed⟩ := Option.bind_eq_some_iff.mp timed
  exact head?_of_readNumber read marked (by decide)

/-- Digits with neither a dash nor a colon behind them are no date. -/
theorem afterDate?_eq_none (noDash : (chars.dropWhile (isDigit 10)).head? ≠ some '-')
    (noColon : (chars.dropWhile (isDigit 10)).head? ≠ some ':') : Date.afterDate? chars = none := by
  unfold Date.afterDate?
  split
  · rename_i dated
    exact absurd (head?_of_afterDay? dated) noDash
  · cases timed : Date.afterTime? chars with
    | none => rfl
    | some _ => exact absurd (head?_of_afterTime? timed) noColon

end Dates

section Numbers

open Numeral (isDigit isNumeral)

theorem head?_toDigits_ne {number : Nat} (positive : number ≠ 0) :
    (Nat.toDigits 10 number).head? ≠ some '0' := by
  induction number using Nat.strongRecOn with
  | ind number ih =>
    rw [Nat.toDigits_eq_if (by decide)]
    split
    · have digits : ∀ digit : Fin 10, digit.val ≠ 0 → [Nat.digitChar digit].head? ≠ some '0' := by
        decide
      rename_i below
      exact digits ⟨number, below⟩ positive
    · rename_i reached
      have nonempty : Nat.toDigits 10 (number / 10) ≠ [] := Nat.toDigits_ne_nil
      rw [List.head?_append_of_ne_nil _ nonempty]
      exact ih _ (Nat.div_lt_self (Nat.pos_of_ne_zero positive) (by decide)) (by omega)

theorem plainDigits?_of_digits {base : Nat} {digits : List Char}
    (numeral : ∀ char ∈ digits, isDigit base char = true) (afterDigit : Bool)
    (nonempty : digits = [] → afterDigit = true) :
    plainDigits? base afterDigit digits = some digits := by
  induction digits generalizing afterDigit with
  | nil => simp [plainDigits?, nonempty rfl]
  | cons char rest ih =>
    obtain ⟨digit, digits⟩ := List.forall_mem_cons.mp numeral
    have plain : char ≠ '_' := by
      rintro rfl
      simp [isDigit, Numeral.digitBelow?, show Numeral.digit? '_' = none by decide] at digit
    rw [plainDigits?, if_neg plain, if_pos digit, ih digits true fun _ => rfl, Option.map_some]

variable (number : Nat)

theorem isDigit_of_mem_toDigits : ∀ char ∈ Nat.toDigits 10 number, isDigit 10 char = true :=
  fun _ => Numeral.isDigit_of_mem (Numeral.isNumeral_decimal number)

theorem wholeDigits?_toDigits :
    wholeDigits? (Nat.toDigits 10 number) = some (Nat.toDigits 10 number) := by
  have read := plainDigits?_of_digits (isDigit_of_mem_toDigits number) false
    fun empty => absurd empty Nat.toDigits_ne_nil
  have short : ¬ ((Nat.toDigits 10 number).head? = some '0' ∧ 1 < (Nat.toDigits 10 number).length) := by
    rintro ⟨zero, long⟩
    by_cases same : number = 0
    · subst same
      exact absurd long (by decide)
    · exact head?_toDigits_ne same zero
  rw [wholeDigits?, read, Option.bind_eq_bind, Option.bind_some]
  simp only [Bool.and_eq_true, decide_eq_true_eq]
  rw [if_neg short]
  rfl

theorem dropSign_of_digits {chars : List Char} (digits : ∀ char ∈ chars, isDigit 10 char = true) :
    dropSign chars = (false, chars) := by
  unfold dropSign
  split
  · exact absurd (digits '-' List.mem_cons_self) (by decide)
  · exact absurd (digits '+' List.mem_cons_self) (by decide)
  · rfl

variable {number} in
theorem readInteger?_toDigits (small : number < Numeral.signedLimit) :
    readInteger? (Nat.toDigits 10 number) = some (number : Int) := by
  have digits := isDigit_of_mem_toDigits number
  have bounded : -(Numeral.signedLimit : Int) ≤ number ∧ (number : Int) < Numeral.signedLimit := by
    omega
  have whole : ((wholeDigits? (Nat.toDigits 10 number)).map fun digits =>
      Numeral.withSign false (Numeral.value 10 digits)) = some (number : Int) := by
    rw [wholeDigits?_toDigits, Option.map_some, Numeral.value_decimal]
    rfl
  unfold readInteger?
  split
  · rename_i same
    exact absurd (digits 'x' (by simp [same])) (by decide)
  · rename_i same
    exact absurd (digits 'o' (by simp [same])) (by decide)
  · rename_i same
    exact absurd (digits 'b' (by simp [same])) (by decide)
  · rw [dropSign_of_digits digits]
    dsimp only
    rw [whole, Option.bind_eq_bind, Option.bind_some, if_pos bounded]
    rfl

end Numbers

section Words

variable {word rest : List Char}

theorem isWordChar_of_isDigit {char : Char} (digit : Numeral.isDigit 10 char = true) :
    isWordChar char = true := by
  have ident := Numeral.isIdent_of_isDigit digit
  simp only [Source.isIdent, Bool.or_eq_true, decide_eq_true_eq] at ident
  simp only [isWordChar, Bool.or_eq_true, decide_eq_true_eq]
  tauto

/-- Nothing, or a character that neither a word nor a date goes on with, and no double quote. -/
def Ends (rest : List Char) : Prop :=
  ∀ char ∈ rest.head?, isWordChar char = false ∧ char ≠ ':' ∧ char ≠ '"'

theorem ends_cons {char : Char} (other : isWordChar char = false ∧ char ≠ ':' ∧ char ≠ '"')
    (rest : List Char) : Ends (char :: rest) := by
  intro head same
  obtain rfl := Option.some.inj same
  exact other

theorem Ends.head?_ne {char : Char} (ends : Ends rest)
    (other : isWordChar char = true ∨ char = ':' ∨ char = '"') : rest.head? ≠ some char := by
  intro head
  obtain ⟨plain, noColon, noQuote⟩ := ends char head
  rcases other with inWord | colon | quote
  · simp [inWord] at plain
  · exact noColon colon
  · exact noQuote quote

/-- What is accepted in front of something that is not. -/
theorem span_append {accepts : Char → Bool} {front : List Char}
    (accepted : ∀ char ∈ front, accepts char = true)
    (stopped : ∀ char ∈ rest.head?, accepts char = false) :
    (front ++ rest).takeWhile accepts = front ∧ (front ++ rest).dropWhile accepts = rest := by
  rw [List.takeWhile_append_of_pos accepted, List.dropWhile_append_of_pos accepted]
  cases rest with
  | nil => simp
  | cons char rest => simp [stopped char rfl]

theorem readSimple_word {value : Value} (read : word? word = some value) (nonempty : word ≠ [])
    (plain : ∀ char ∈ word, isWordChar char = true)
    (undated : Date.afterDate? (word ++ rest) = none) (ends : Ends rest) :
    readSimple (word ++ rest) = some (value, rest) := by
  obtain ⟨taken, dropped⟩ := span_append plain fun char head => (ends char head).1
  have unquoted : ∀ char ∈ (word ++ rest).head?, isWordChar char = true := by
    intro char head
    rw [List.head?_append_of_ne_nil _ nonempty] at head
    exact plain char (List.mem_of_mem_head? head)
  unfold readSimple
  split
  · rename_i same
    exact absurd (unquoted '"' (by rw [same]; rfl)) (by decide)
  · rename_i same
    exact absurd (unquoted '\'' (by rw [same]; rfl)) (by decide)
  · rw [undated, taken, dropped, read]
    rfl

theorem word?_toDigits {number : Nat} (small : number < Numeral.signedLimit) :
    word? (Nat.toDigits 10 number) = some (.integer number) := by
  have digits := isDigit_of_mem_toDigits number
  have noTrue : Nat.toDigits 10 number ≠ ['t', 'r', 'u', 'e'] := by
    intro same
    exact absurd (digits 't' (by simp [same])) (by decide)
  have noFalse : Nat.toDigits 10 number ≠ ['f', 'a', 'l', 's', 'e'] := by
    intro same
    exact absurd (digits 'f' (by simp [same])) (by decide)
  rw [word?, if_neg noTrue, if_neg noFalse, readInteger?_toDigits small]

theorem toList_natural (number : Nat) :
    (Value.integer number).text.toList = Nat.toDigits 10 number := by
  have unsigned : ¬ (number : Int) < 0 := by omega
  rw [Value.text, Numeral.signed, if_neg unsigned, Numeral.decimal, String.toList_ofList,
    Int.natAbs_natCast]

theorem readSimple_natural {number : Nat} (small : number < Numeral.signedLimit) (ends : Ends rest) :
    readSimple ((Value.integer number).text.toList ++ rest) = some (.integer number, rest) := by
  have digits := isDigit_of_mem_toDigits number
  have behind : (Nat.toDigits 10 number ++ rest).dropWhile (Numeral.isDigit 10) = rest := by
    refine (span_append digits ?_).2
    intro char head
    by_contra digit
    have inWord := isWordChar_of_isDigit (Bool.not_eq_false _ ▸ digit)
    exact ends.head?_ne (.inl inWord) head
  rw [toList_natural]
  refine readSimple_word (word?_toDigits small) Nat.toDigits_ne_nil
    (fun char member => isWordChar_of_isDigit (digits char member)) ?_ ends
  apply afterDate?_eq_none
  · rw [behind]
    exact ends.head?_ne (.inl (by decide))
  · rw [behind]
    exact ends.head?_ne (.inr (.inl rfl))

theorem readSimple_string (text : String) (ends : Ends rest) :
    readSimple ((Value.string text).text.toList ++ rest) = some (.string text, rest) := by
  have read := readString_quoted text (ends.head?_ne (.inr (.inr rfl)))
  rw [Value.text]
  rw [toList_quoted, List.cons_append] at read ⊢
  rw [readSimple, read]
  rfl

end Words

end AsmLab.Toml
