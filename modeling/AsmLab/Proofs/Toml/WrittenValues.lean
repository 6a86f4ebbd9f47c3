import AsmLab.Proofs.Toml.WrittenWords

/-! Values read back from their written form: strings, natural numbers, and arrays of these, on one line
or on several. -/
namespace AsmLab.Toml

section Values

/-- Strings and natural numbers, and arrays of these that are nested so deep. -/
inductive Value.Written : Nat → Value → Prop where
  | string {depth : Nat} (text : String) : Written depth (.string text)
  | natural {depth number : Nat} (small : number < Numeral.signedLimit) :
      Written depth (.integer number)
  | array {depth : Nat} {items : List Value} (each : ∀ item ∈ items, Written depth item) :
      Written (depth + 1) (.array items)

variable {depth : Nat} {value : Value} {rest : List Char}

/-- A character at the start of a written value. It is not skipped with the gap in front of it, and does
not close an array. -/
def Opens (char : Char) : Prop :=
  char ∉ [' ', '\t', '\n', '\r', '#', ']']

theorem opens_quote : Opens '"' := by
  simp [Opens]

theorem opens_bracket : Opens '[' := by
  simp [Opens]

theorem opens_of_isDigit {char : Char} (digit : Numeral.isDigit 10 char = true) : Opens char := by
  have others : [' ', '\t', '\n', '\r', '#', ']'].all (!Numeral.isDigit 10 ·) = true := by decide
  intro member
  have other := List.all_eq_true.mp others char member
  simp [digit] at other

theorem toList_array_nil : (Value.array []).text.toList = ['[', ']'] := by
  simp [Value.text]

theorem toList_array_single (item : Value) :
    (Value.array [item]).text.toList = '[' :: (item.text.toList ++ [']']) := by
  simp [Value.text]

theorem toList_array_lines (first second : Value) (rest : List Value) :
    (Value.array (first :: second :: rest)).text.toList =
      '[' :: '\n' :: ((itemLines (first :: second :: rest)).toList ++ [']']) := by
  simp [Value.text]

theorem Value.Written.opens (written : value.Written depth) :
    ∃ char behind, value.text.toList = char :: behind ∧ Opens char := by
  cases written with
  | string text => exact ⟨_, _, toList_quoted text, opens_quote⟩
  | @natural depth number small =>
    obtain ⟨digit, digits, text⟩ := List.exists_cons_of_ne_nil (@Nat.toDigits_ne_nil number 10)
    rw [toList_natural, text]
    exact ⟨_, _, rfl, opens_of_isDigit (isDigit_of_mem_toDigits number digit (by simp [text]))⟩
  | @array depth items each =>
    match items with
    | [] => exact ⟨'[', _, toList_array_nil, opens_bracket⟩
    | [item] => exact ⟨'[', _, toList_array_single item, opens_bracket⟩
    | first :: second :: rest => exact ⟨'[', _, toList_array_lines first second rest, opens_bracket⟩

theorem skipGap_opens {char : Char} (opens : Opens char) (rest : List Char) :
    skipGap false (char :: rest) = char :: rest := by
  simp only [Opens, List.mem_cons, List.not_mem_nil, or_false, not_or] at opens
  obtain ⟨noSpace, noTab, noNewline, noReturn, noComment, -⟩ := opens
  have visible : isBlank char = false := by simp [isBlank, noSpace, noTab]
  rw [skipGap, visible, if_neg Bool.false_ne_true, if_neg noComment]
  · simpa using noNewline
  · intro behind same
    exact absurd same noReturn

theorem skipGap_written (written : value.Written depth) (rest : List Char) :
    skipGap false (value.text.toList ++ rest) = value.text.toList ++ rest := by
  obtain ⟨char, behind, text, opens⟩ := written.opens
  rw [text]
  exact skipGap_opens opens _

section Items

variable {readItem : Reader Value} {next : List Char}
  (written : value.Written depth) (read : readItem (value.text.toList ++ rest) = some (value, rest))
include written read

theorem readItems_last (fuel : Nat) (closed : skipGap false rest = ']' :: next) :
    readItems readItem (fuel + 1) (value.text.toList ++ rest) = some ([value], next) := by
  obtain ⟨char, behind, text, opens⟩ := written.opens
  rw [text, List.cons_append] at read ⊢
  rw [readItems, read, Option.bind_eq_bind, Option.bind_some]
  · simp only [closed]
    rfl
  · rintro _ ⟨rfl, rfl⟩
    simp [Opens] at opens

theorem readItems_comma {fuel : Nat} {items : List Value} {last : List Char}
    (comma : skipGap false rest = ',' :: next)
    (others : readItems readItem fuel (skipGap false next) = some (items, last)) :
    readItems readItem (fuel + 1) (value.text.toList ++ rest) = some (value :: items, last) := by
  obtain ⟨char, behind, text, opens⟩ := written.opens
  rw [text, List.cons_append] at read ⊢
  rw [readItems, read, Option.bind_eq_bind, Option.bind_some]
  · simp only [comma, others]
    rfl
  · rintro _ ⟨rfl, rfl⟩
    simp [Opens] at opens

end Items

theorem readItems_lines {readItem : Reader Value} {items : List Value}
    (each : ∀ item ∈ items, item.Written depth ∧ ∀ rest, Ends rest →
      readItem (item.text.toList ++ rest) = some (item, rest))
    {fuel : Nat} (enough : items.length < fuel) :
    readItems readItem fuel (skipGap false ((itemLines items).toList ++ ']' :: rest)) =
      some (items, rest) := by
  induction items generalizing fuel with
  | nil =>
    obtain ⟨fuel, rfl⟩ := Nat.exists_eq_add_one_of_ne_zero (Nat.ne_zero_of_lt enough)
    rfl
  | cons item items ih =>
    obtain ⟨fuel, rfl⟩ := Nat.exists_eq_add_one_of_ne_zero (Nat.ne_zero_of_lt enough)
    obtain ⟨⟨written, read⟩, others⟩ := List.forall_mem_cons.mp each
    let behind := ',' :: '\n' :: ((itemLines items).toList ++ ']' :: rest)
    have line : (itemLines (item :: items)).toList ++ ']' :: rest =
        ' ' :: ' ' :: ' ' :: ' ' :: (item.text.toList ++ behind) := by
      simp [itemLines, behind]
    have front : skipGap false (' ' :: ' ' :: ' ' :: ' ' :: (item.text.toList ++ behind)) =
        item.text.toList ++ behind := skipGap_written written behind
    rw [line, front]
    exact readItems_comma written (read behind (ends_cons (by decide) _)) rfl
      (ih others (Nat.lt_of_succ_lt_succ enough))

theorem length_le_itemLines (items : List Value) : items.length ≤ (itemLines items).toList.length := by
  induction items with
  | nil => exact Nat.zero_le _
  | cons item items ih =>
    have line : (itemLines (item :: items)).toList =
        ' ' :: ' ' :: ' ' :: ' ' :: (item.text.toList ++ ',' :: '\n' :: (itemLines items).toList) := by
      simp [itemLines]
    rw [line]
    simp only [List.length_cons, List.length_append]
    omega

theorem readValue_simple {char : Char} (noBracket : char ≠ '[') (noBrace : char ≠ '\x7b')
    (depth : Nat) (rest : List Char) : readValue depth (char :: rest) = readSimple (char :: rest) := by
  unfold readValue
  split
  · rename_i same
    exact absurd (List.cons.inj same).1 noBracket
  · rename_i same
    exact absurd (List.cons.inj same).1 noBrace
  · rfl

theorem readValue_array {items : List Value} {next : List Char}
    (read : readItems (readValue depth) rest.length (skipGap false rest) = some (items, next)) :
    readValue (depth + 1) ('[' :: rest) = some (.array items, next) := by
  rw [readValue, read]
  rfl

theorem readValue_items {items : List Value}
    (each : ∀ item ∈ items, item.Written depth ∧ ∀ rest, Ends rest →
      readValue depth (item.text.toList ++ rest) = some (item, rest)) :
    readValue (depth + 1) ((Value.array items).text.toList ++ rest) = some (.array items, rest) := by
  cases items with
  | nil =>
    rw [toList_array_nil]
    exact readValue_array rfl
  | cons first others =>
    cases others with
    | nil =>
      obtain ⟨written, read⟩ := each first List.mem_cons_self
      have room : (first.text.toList ++ ']' :: rest).length =
          first.text.toList.length + rest.length + 1 := by
        rw [List.length_append, List.length_cons, Nat.add_assoc]
      rw [toList_array_single, List.cons_append, List.append_assoc, List.singleton_append]
      apply readValue_array
      rw [skipGap_written written, room]
      exact readItems_last written (read _ (ends_cons (by decide) rest)) _ rfl
    | cons second others =>
      have long := length_le_itemLines (first :: second :: others)
      rw [toList_array_lines, List.cons_append, List.cons_append, List.append_assoc,
        List.singleton_append]
      apply readValue_array
      refine readItems_lines each ?_
      simp only [List.length_cons, List.length_append] at long ⊢
      omega

/-- A written value is read back, whatever it is followed by. -/
theorem readValue_text (written : value.Written depth) (ends : Ends rest) :
    readValue depth (value.text.toList ++ rest) = some (value, rest) := by
  induction written generalizing rest with
  | string text =>
    rw [← readSimple_string text ends, Value.text, toList_quoted]
    exact readValue_simple (by decide) (by decide) _ _
  | @natural depth number small =>
    obtain ⟨digit, digits, text⟩ := List.exists_cons_of_ne_nil (@Nat.toDigits_ne_nil number 10)
    have isDigit := isDigit_of_mem_toDigits number digit (by simp [text])
    rw [← readSimple_natural small ends, toList_natural, text]
    refine readValue_simple ?_ ?_ _ _
    · rintro rfl
      exact absurd isDigit (by decide)
    · rintro rfl
      exact absurd isDigit (by decide)
  | array each ih =>
    exact readValue_items fun item member => ⟨each item member, fun _ => ih item member⟩

end Values

end AsmLab.Toml
