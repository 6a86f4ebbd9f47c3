import AsmLab.Proofs.Source.MnemonicText
import AsmLab.Proofs.Source.OperandReading

/-! Statements and lines read back from their canonical text. -/
namespace AsmLab

open Source

/-- The operands that a statement writes. -/
def Statement.operands {Label : Type} : Statement Label → List (Operand Label)
  | .instruction body => body.operands.toList
  | .blank | .comment | .label _ => []

/-- What the text of an instruction has behind its mnemonic. -/
def Operands.tail : Operands String → List Char
  | .nullary => []
  | .unary operand => ' ' :: operand.text.toList
  | .binary source destination =>
    ' ' :: (source.text.toList ++ ',' :: ' ' :: destination.text.toList)

theorem Instruction.toList_text (instruction : Instruction String) :
    instruction.text.toList = instruction.mnemonic.text.toList ++ instruction.operands.tail := by
  obtain ⟨mnemonic, operands⟩ := instruction
  cases operands <;> simp [text, Operands.tail]

namespace Source

variable {start : Nat}

theorem operandPieces_nil : operandPieces ⟨start, []⟩ = .ok [] := by
  rw [operandPieces, Fragment.trim_eq_self trimmed_nil]
  rfl

theorem operandPieces_unary {chars : List Char} (shape : IsOperandText chars) :
    operandPieces ⟨start, ' ' :: chars⟩ = .ok [⟨start + 1, chars⟩] := by
  have nonempty : chars.isEmpty = false := by simpa using shape.nonempty
  have whole := Fragment.cutCommas_unsplit (start + 1) shape.unsplit
  have trimmed : Fragment.trim ⟨start + 1, chars⟩ = ⟨start + 1, chars⟩ :=
    Fragment.trim_eq_self shape.trimmed
  rw [operandPieces, Fragment.trim_blank_cons isBlank_space, trimmed]
  simp [Fragment.isEmpty, nonempty, Fragment.splitOuterCommas, whole, trimPieces, trimmed]

theorem operandPieces_binary {first second : List Char} (firstShape : IsOperandText first)
    (secondShape : IsOperandText second) :
    operandPieces ⟨start, ' ' :: (first ++ ',' :: ' ' :: second)⟩ =
      .ok [⟨start + 1, first⟩, ⟨start + 1 + (first.length + 1) + 1, second⟩] := by
  have wholeTrimmed : Trimmed (first ++ ',' :: ' ' :: second) := by
    apply trimmed_append firstShape.nonempty firstShape.trimmed
    obtain ⟨head, tail, same⟩ := List.exists_cons_of_ne_nil secondShape.nonempty
    rw [same, List.getLast?_cons_cons, List.getLast?_cons_cons, ← same]
    exact secondShape.trimmed.2
  have firstCut := Fragment.cutCommas_append_comma (start + 1) (' ' :: second)
    firstShape.unsplit
  have secondUnsplit : Fragment.Unsplit Fragment.parenthesisNesting 0 (' ' :: second) :=
    ⟨by decide, secondShape.unsplit⟩
  have secondCut := Fragment.cutCommas_unsplit (start + 1 + (first.length + 1))
    secondUnsplit
  rw [operandPieces, Fragment.trim_blank_cons isBlank_space, Fragment.trim_eq_self wholeTrimmed]
  simp [Fragment.isEmpty, Fragment.splitOuterCommas, firstCut, secondCut, trimPieces,
    Fragment.trim_eq_self firstShape.trimmed, Fragment.trim_eq_self secondShape.trimmed,
    Fragment.trim_blank_cons isBlank_space, firstShape.nonempty,
    secondShape.nonempty,
    bind, Except.bind, pure, Except.pure]

/-- The operands of an instruction come apart where their texts were joined. -/
theorem operandPieces_tail (start : Nat) {operands : Operands String}
    (shaped : ∀ operand ∈ operands.toList, IsOperandText operand.text.toList) :
    ∃ pieces, operandPieces ⟨start, operands.tail⟩ = .ok pieces ∧
      pieces.map Fragment.chars = operands.toList.map fun operand => operand.text.toList := by
  cases operands with
  | nullary => exact ⟨[], operandPieces_nil, rfl⟩
  | unary operand => exact ⟨_, operandPieces_unary (shaped operand (by simp [Operands.toList])), rfl⟩
  | binary source destination =>
    exact ⟨_, operandPieces_binary (shaped source (by simp [Operands.toList]))
      (shaped destination (by simp [Operands.toList])), rfl⟩

/-- A reader gives back what was written if that can be spelled, and complains about a displacement
otherwise. -/
structure ReadsBack {Value : Type} (spelled : Prop) (result : Except ParseError Value)
    (value : Value) : Prop where
  accepted : spelled → result = .ok value
  rejected : ¬ spelled → ∃ span, result = .error ⟨.invalidDisplacement, span⟩

theorem ReadsBack.map {First Second : Type} {spelled : Prop} {result : Except ParseError First}
    {value : First} (back : ReadsBack spelled result value) (build : First → Second) :
    ReadsBack spelled (do return build (← result)) (build value) where
  accepted spells := by
    rw [back.accepted spells]
    rfl
  rejected unspelled := by
    obtain ⟨span, failed⟩ := back.rejected unspelled
    exact ⟨span, by rw [failed]; rfl⟩

theorem readOperand_readsBack (start : Nat) {slot : Slot} {operand : Operand String}
    (admitted : slot.Admits operand) :
    ReadsBack (¬ operand.IsLowest) (readOperand slot ⟨start, operand.text.toList⟩) operand where
  accepted spells := readOperand_text admitted spells
  rejected lowest := readOperand_lowest admitted (not_not.mp lowest)

theorem readOperands_readsBack (word : Fragment) {mnemonic : Mnemonic} {pieces : List Fragment}
    {operands : Operands String} (matched : operands.Match mnemonic.slots)
    (cut : pieces.map Fragment.chars = operands.toList.map fun operand => operand.text.toList) :
    ReadsBack (∀ operand ∈ operands.toList, ¬ operand.IsLowest)
      (readOperands mnemonic word pieces) operands := by
  unfold readOperands
  unfold Operands.Match at matched
  split at matched
  · rename_i noSlots
    obtain rfl := List.map_eq_nil_iff.mp cut
    rw [noSlots]
    exact ⟨fun _ => rfl, fun unspelled => absurd (by simp [Operands.toList]) unspelled⟩
  · rename_i slot operand oneSlot
    obtain ⟨start, rest, rfl, cutRest⟩ := exists_of_map_chars cut
    obtain rfl := List.map_eq_nil_iff.mp cutRest
    rw [oneSlot]
    simpa [Operands.toList] using (readOperand_readsBack start matched).map Operands.unary
  · rename_i sourceSlot slot source destination twoSlots
    obtain ⟨admittedSource, admitted, oneMemory⟩ := matched
    obtain ⟨sourceStart, others, rfl, cutOthers⟩ := exists_of_map_chars cut
    obtain ⟨start, rest, rfl, cutRest⟩ := exists_of_map_chars cutOthers
    obtain rfl := List.map_eq_nil_iff.mp cutRest
    have noDollar := head?_text_ne_dollar admitted (Mnemonic.constant_of_slots twoSlots)
    have readSource := readOperand_readsBack sourceStart admittedSource
    have readDestination := readOperand_readsBack start admitted
    rw [twoSlots]
    simp only [Fragment.head?, if_neg noDollar]
    constructor
    · intro spells
      rw [readSource.accepted (spells source (by simp [Operands.toList])),
        readDestination.accepted (spells destination (by simp [Operands.toList]))]
      simp [bind, Except.bind, pure, Except.pure, oneMemory]
    · intro unspelled
      by_cases sourceSpelled : ¬ source.IsLowest
      · have lowest : ¬ ¬ destination.IsLowest := by
          intro spells
          exact unspelled (by simp [Operands.toList, sourceSpelled, spells])
        obtain ⟨span, failed⟩ := readDestination.rejected lowest
        rw [readSource.accepted sourceSpelled, failed]
        exact ⟨span, rfl⟩
      · obtain ⟨span, failed⟩ := readSource.rejected sourceSpelled
        rw [failed]
        exact ⟨span, rfl⟩
  · exact matched.elim

theorem decodeMnemonic_text {mnemonic : Mnemonic} {pieces : List Fragment}
    (listed : mnemonic ∈ Mnemonic.catalog) :
    decodeMnemonic ⟨start, mnemonic.text.toList⟩ pieces = .ok mnemonic := by
  simp [decodeMnemonic, Mnemonic.text_lower listed, Mnemonic.decode_text listed]

end Source

theorem Operands.Match.isOperandText {operands : Operands String} {slots : List Slot}
    (matched : operands.Match slots) :
    ∀ operand ∈ operands.toList, IsOperandText operand.text.toList := by
  unfold Match at matched
  split at matched
  · simp [toList]
  · simpa [toList] using IsOperandText.of_admits matched
  · simpa [toList] using ⟨IsOperandText.of_admits matched.1, IsOperandText.of_admits matched.2.1⟩
  · exact matched.elim

private theorem Operands.mem_tail {operands : Operands String} {char : Char}
    (member : char ∈ operands.tail) :
    char = ' ' ∨ char = ',' ∨ ∃ operand ∈ operands.toList, char ∈ operand.text.toList := by
  cases operands with
  | nullary => cases member
  | unary operand =>
    simp only [tail, List.mem_cons] at member
    simp only [toList, List.mem_cons, List.not_mem_nil, or_false, exists_eq_left]
    tauto
  | binary source destination =>
    simp only [tail, List.mem_cons, List.mem_append] at member
    simp only [toList, List.mem_cons, List.not_mem_nil, or_false, exists_eq_or_imp, exists_eq_left]
    tauto

/-- Letters of the text before a comment. -/
def Source.isBodyChar (char : Char) : Bool :=
  isOperandChar char || char = ' ' || char = ':'

namespace Operands.Match

variable {operands : Operands String} {slots : List Slot}

theorem colon_not_mem_tail (matched : operands.Match slots) : ':' ∉ operands.tail := by
  intro member
  rcases mem_tail member with blank | comma | ⟨operand, listed, inside⟩
  · cases blank
  · cases comma
  · exact absurd ((matched.isOperandText operand listed).letters ':' inside) (by decide)

theorem letters_tail (matched : operands.Match slots) :
    ∀ char ∈ operands.tail, isBodyChar char = true := by
  intro char member
  rcases mem_tail member with rfl | rfl | ⟨operand, listed, inside⟩
  · decide
  · decide
  · simp [isBodyChar, (matched.isOperandText operand listed).letters char inside]

theorem getLast?_tail (matched : operands.Match slots) :
    ∀ char ∈ operands.tail.getLast?, isBlank char = false := by
  have shaped := matched.isOperandText
  have last (front : List Char) {chars : List Char} (shape : IsOperandText chars) :
      ∀ char ∈ (front ++ chars).getLast?, isBlank char = false := by
    rw [List.getLast?_append_of_ne_nil front shape.nonempty]
    exact shape.trimmed.2
  cases operands with
  | nullary => simp [tail]
  | unary operand => exact last [' '] (shaped operand (by simp [toList]))
  | binary source destination =>
    have shape := shaped destination (by simp [toList])
    simpa [tail] using last (' ' :: (source.text.toList ++ [',', ' '])) shape

end Operands.Match

namespace Source

variable {start : Nat}

theorem readInstruction_readsBack {body : Instruction String} {wordStart : Nat}
    (wellFormed : body.WellFormed) :
    ReadsBack (∀ operand ∈ body.operands.toList, ¬ operand.IsLowest)
      (readInstruction ⟨wordStart, body.mnemonic.text.toList⟩ ⟨start, body.operands.tail⟩)
      (.instruction body) := by
  obtain ⟨pieces, cut, same⟩ := operandPieces_tail start wellFormed.matched.isOperandText
  have operands := readOperands_readsBack ⟨wordStart, body.mnemonic.text.toList⟩
    wellFormed.matched same
  rw [readInstruction, cut]
  simpa [decodeMnemonic_text wellFormed.listed, bind, Except.bind] using
    operands.map fun operands => Statement.instruction ⟨body.mnemonic, operands⟩

end Source

/-- The statement does not mention the lowest displacement. -/
def Statement.Spelled {Label : Type} (statement : Statement Label) : Prop :=
  ∀ operand ∈ statement.operands, ¬ operand.IsLowest

theorem Statement.spelled_of_operands {Label : Type} {statement : Statement Label}
    (none : statement.operands = []) : statement.Spelled := by
  simp [Spelled, none]

namespace Source

variable {start : Nat}

theorem head?_name_append {name rest : List Char} (spelled : IsName name) :
    (Fragment.head? ⟨start, name ++ rest⟩).any isIdentStart = true := by
  have first := List.head?_eq_some_head spelled.ne_nil
  rw [Fragment.head?, List.head?_append, first, Option.some_or, ← first]
  exact spelled.1

theorem readStatement_label {name : String} (spelled : IsName name.toList)
    (noRegister : Register.ofName? name = none) :
    readStatement ⟨start, name.toList ++ [':']⟩ = .ok (.label name) := by
  have stops : ∀ char ∈ [':'].head?, isIdent char = false := by simp [isIdent]
  have word := Fragment.takeWhile_append start [':'] spelled.2 stops
  have rest := Fragment.dropWhile_append start [':'] spelled.2 stops
  have colon : Trimmed [':'] := by simp [Trimmed, isBlank]
  rw [readStatement, if_neg (by simp [head?_name_append spelled]), word, rest]
  simp only [Fragment.trim_eq_self colon, Fragment.head?, List.head?_cons, ↓reduceIte,
    Fragment.drop, List.drop_succ_cons, List.drop_zero, readLabelDefinition,
    Fragment.trim_eq_self trimmed_nil, Fragment.isEmpty,
    List.isEmpty_nil, Bool.not_true, Bool.false_eq_true, Fragment.text, String.ofList_toList,
    noRegister]

theorem readStatement_instruction {body : Instruction String} (wellFormed : body.WellFormed) :
    ReadsBack (∀ operand ∈ body.operands.toList, ¬ operand.IsLowest)
      (readStatement ⟨start, body.text.toList⟩) (.instruction body) := by
  have name := Mnemonic.text_isName wellFormed.listed
  have blank : ∀ char ∈ body.operands.tail.head?, char = ' ' := by
    cases body.operands <;> simp [Operands.tail]
  have stops : ∀ char ∈ body.operands.tail.head?, isIdent char = false := by
    intro char first
    rw [blank char first]
    decide
  have word := Fragment.takeWhile_append start body.operands.tail name.2 stops
  have rest := Fragment.dropWhile_append start body.operands.tail name.2 stops
  have noColon : (Fragment.trim ⟨start + body.mnemonic.text.toList.length,
      body.operands.tail⟩).head? ≠ some ':' := by
    intro colon
    exact wellFormed.matched.colon_not_mem_tail
      (Fragment.mem_of_mem_trim (List.mem_of_head? colon))
  have separated : ¬ (Fragment.head? ⟨start + body.mnemonic.text.toList.length,
      body.operands.tail⟩).any (!isBlank ·) = true := by
    intro other
    obtain ⟨char, first, visible⟩ := (Option.any_eq_true _ _).mp other
    rw [blank char first] at visible
    exact absurd visible (by decide)
  rw [Instruction.toList_text, readStatement, if_neg (by simp [head?_name_append name]), word, rest]
  simp only [if_neg noColon, if_neg separated]
  exact readInstruction_readsBack wellFormed

/-- What the cutting of a line needs of the text before the comment. -/
structure IsBodyText (chars : List Char) : Prop where
  nonempty : chars ≠ []
  trimmed : Trimmed chars
  letters : ∀ char ∈ chars, isBodyChar char = true

theorem IsName.isBodyText {chars : List Char} (name : IsName chars) : IsBodyText chars where
  nonempty := name.ne_nil
  trimmed := name.trimmed
  letters char member := by
    simp [isBodyChar, isOperandChar, isPlain_of_isIdent (name.2 char member)]

theorem IsBodyText.append {front rest : List Char} (shape : IsBodyText front)
    (last : ∀ char ∈ rest.getLast?, isBlank char = false)
    (letters : ∀ char ∈ rest, isBodyChar char = true) :
    IsBodyText (front ++ rest) where
  nonempty := by simp [shape.nonempty]
  trimmed := trimmed_append shape.nonempty shape.trimmed last
  letters char member := (List.mem_append.mp member).elim (shape.letters char) (letters char)

end Source

theorem Statement.isBodyText {statement : Statement String} (wellFormed : statement.WellFormed)
    (visible : statement ≠ .blank ∧ statement ≠ .comment) :
    IsBodyText statement.text.toList := by
  cases statement with
  | blank => exact absurd rfl visible.1
  | comment => exact absurd rfl visible.2
  | label name =>
    rw [text, String.toList_append]
    exact wellFormed.1.isBodyText.append (by simp [isBlank]) (by simp [isBodyChar])
  | instruction body =>
    rw [text, Instruction.toList_text]
    have name := Mnemonic.text_isName wellFormed.listed
    exact name.isBodyText.append wellFormed.matched.getLast?_tail
      wellFormed.matched.letters_tail

namespace Source

/-- A line comes apart into its body and its comment. -/
theorem readDraft_body {body : String} (shape : IsBodyText body.toList) (comment : Option String) :
    readDraft (comment.elim body fun text => body ++ " #" ++ text) = do
      return ⟨← readStatement ⟨0, body.toList⟩, comment,
        (Fragment.takeWhile ⟨0, body.toList⟩ isIdent).span⟩ := by
  have uncommented : ∀ char ∈ body.toList, decide (char ≠ '#') = true := by
    intro char member
    have unmarked := not_mem_of_forall '#' shape.letters (by decide)
    simpa using fun same : char = '#' => unmarked (same ▸ member)
  have nonempty : body.toList.isEmpty = false := by simpa using shape.nonempty
  cases comment with
  | none =>
    have front := Fragment.takeWhile_append 0 [] uncommented (by simp)
    have rest := Fragment.dropWhile_append 0 [] uncommented (by simp)
    rw [List.append_nil] at front rest
    simp only [readDraft, Fragment.ofString, Option.elim_none, front, rest,
      Fragment.trim_eq_self shape.trimmed, Fragment.isEmpty, nonempty, List.isEmpty_nil,
      Bool.false_eq_true, ↓reduceIte]
  | some text =>
    have uncommentedBlank : ∀ char ∈ body.toList ++ [' '], decide (char ≠ '#') = true := by
      intro char member
      rcases List.mem_append.mp member with inside | blank
      · exact uncommented char inside
      · obtain rfl := List.mem_singleton.mp blank
        decide
    have front := Fragment.takeWhile_append 0 ('#' :: text.toList)
      uncommentedBlank (by simp)
    have rest := Fragment.dropWhile_append 0 ('#' :: text.toList)
      uncommentedBlank (by simp)
    have whole : (body ++ " #" ++ text).toList = body.toList ++ [' '] ++ '#' :: text.toList := by
      simp
    simp only [readDraft, Fragment.ofString, Option.elim_some, whole, front, rest,
      Fragment.trim_concat_blank shape.trimmed shape.nonempty isBlank_space,
      Fragment.isEmpty, nonempty, List.isEmpty_cons, Fragment.drop, List.drop_succ_cons,
      List.drop_zero, Fragment.text, String.ofList_toList, Bool.false_eq_true, ↓reduceIte]

theorem readDraft_comment (text : String) :
    ∃ keyword, readDraft ("#" ++ text) = .ok ⟨.comment, some text, keyword⟩ := by
  refine ⟨⟨0, 0⟩, ?_⟩
  simp [readDraft, Fragment.ofString, Fragment.takeWhile, Fragment.dropWhile, Fragment.drop,
    Fragment.trim_eq_self trimmed_nil, Fragment.isEmpty, Fragment.span, Fragment.stop, Fragment.text]
  rfl

theorem readStatement_text (start : Nat) {statement : Statement String} (wellFormed : statement.WellFormed)
    (visible : statement ≠ .blank ∧ statement ≠ .comment) :
    ReadsBack statement.Spelled (readStatement ⟨start, statement.text.toList⟩) statement := by
  cases statement with
  | blank => exact absurd rfl visible.1
  | comment => exact absurd rfl visible.2
  | label name =>
    rw [Statement.text, String.toList_append]
    exact ⟨fun _ => readStatement_label wellFormed.1 wellFormed.2,
      fun unspelled => absurd (Statement.spelled_of_operands rfl) unspelled⟩
  | instruction body => exact readStatement_instruction wellFormed

end Source

theorem Line.text_of_body {line : Line} (nonempty : line.statement.names.text ≠ "") :
    line.text = line.comment.elim line.statement.names.text fun text =>
      line.statement.names.text ++ " #" ++ text := by
  unfold text
  cases line.comment <;> simp [nonempty]

namespace Source

/-- A line comes back from its text with its statement, its label names and its comment, unless it
mentions the lowest displacement. -/
theorem readDraft_text {line : Line} (wellFormed : line.WellFormed) :
    ∃ keyword, ReadsBack line.statement.names.Spelled (readDraft line.text)
      ⟨line.statement.names, line.comment, keyword⟩ := by
  obtain ⟨statement, takesComment⟩ := wellFormed
  by_cases visible : line.statement.names ≠ .blank ∧ line.statement.names ≠ .comment
  · have shape := Statement.isBodyText statement visible
    have nonempty : line.statement.names.text ≠ "" := by
      intro empty
      exact shape.nonempty (by rw [empty]; rfl)
    have back := readStatement_text 0 statement visible
    rw [Line.text_of_body nonempty, readDraft_body shape]
    exact ⟨_, back.map fun read => Draft.mk read line.comment
      (Fragment.takeWhile ⟨0, line.statement.names.text.toList⟩ isIdent).span⟩
  · cases named : line.statement.names with
    | blank =>
      rw [named] at takesComment
      have silent : line.comment = none := takesComment
      have empty : line.text = "" := by simp [Line.text, named, silent, Statement.text]
      rw [empty, silent]
      exact ⟨⟨0, 0⟩, fun _ => rfl,
        fun unspelled => absurd (Statement.spelled_of_operands rfl) unspelled⟩
    | comment =>
      rw [named] at takesComment
      obtain ⟨text, spoken⟩ := Option.isSome_iff_exists.mp takesComment
      obtain ⟨keyword, read⟩ := readDraft_comment text
      have marked : line.text = "#" ++ text := by simp [Line.text, named, spoken, Statement.text]
      rw [marked, spoken]
      exact ⟨keyword, fun _ => read,
        fun unspelled => absurd (Statement.spelled_of_operands rfl) unspelled⟩
    | label _ => exact absurd (by simp [named]) visible
    | instruction _ => exact absurd (by simp [named]) visible

end Source

end AsmLab
