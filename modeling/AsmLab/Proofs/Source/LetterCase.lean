import AsmLab.Proofs.Source.AddressParts
import AsmLab.Proofs.Source.RaisedText
import AsmLab.Proofs.Source.SessionIndependence

/-! Letter case says nothing in an instruction, except in the name of a branch target. The raised text is
read as the same statement with its label names raised, or it is rejected for the same kind of reason at
the same columns. -/
namespace AsmLab.Source

/-- What two readers come to: related results, or errors of one kind about the same columns. -/
inductive Alike {First Second : Type} (Related : First → Second → Prop) :
    Except ParseError First → Except ParseError Second → Prop where
  | ok {first : First} {second : Second} (related : Related first second) :
      Alike Related (.ok first) (.ok second)
  | error {cause other : ErrorCause} {span : Span} (kind : other.kind = cause.kind) :
      Alike Related (.error ⟨cause, span⟩) (.error ⟨other, span⟩)

namespace Alike

variable {First Second Third Fourth : Type} {Related : First → Second → Prop}
  {Later : Third → Fourth → Prop}

theorem bind {first : Except ParseError First} {second : Except ParseError Second}
    {next : First → Except ParseError Third} {after : Second → Except ParseError Fourth}
    (alike : Alike Related first second)
    (later : ∀ left right, Related left right → Alike Later (next left) (after right)) :
    Alike Later (first >>= next) (second >>= after) := by
  cases alike with
  | ok related => exact later _ _ related
  | error kind => exact .error kind

theorem branch {condition same : Prop} [Decidable condition] [Decidable same]
    {first firstElse : Except ParseError First} {second secondElse : Except ParseError Second}
    (iff : same ↔ condition) (yes : condition → Alike Related first second)
    (no : ¬ condition → Alike Related firstElse secondElse) :
    Alike Related (if condition then first else firstElse) (if same then second else secondElse) := by
  by_cases holds : condition
  · rw [if_pos holds, if_pos (iff.mpr holds)]
    exact yes holds
  · rw [if_neg holds, if_neg (iff.not.mpr holds)]
    exact no holds

theorem error_of_span {cause other : ErrorCause} {span place : Span} (same : place = span)
    (kind : other.kind = cause.kind) :
    Alike Related (.error ⟨cause, span⟩) (.error ⟨other, place⟩) := by
  rw [same]
  exact .error kind

theorem reject (piece : Fragment) {cause other : ErrorCause} (kind : other.kind = cause.kind) :
    Alike Related (Source.reject piece cause) (Source.reject piece.raised other) := by
  rw [Source.reject, Source.reject, Fragment.span_raised]
  exact .error kind

end Alike

section Operands

variable (slot : Slot) (piece : Fragment)

theorem readRegister_alike :
    Alike (fun read other => other = (read.1, read.2.raised)) (readRegister piece)
      (readRegister piece.raised) := by
  unfold readRegister
  simp only [Fragment.drop_raised, Fragment.takeWhile_raised _ isIdent_toUpper,
    Fragment.dropWhile_raised _ isIdent_toUpper, Fragment.text_raised, ofName?_raise,
    Fragment.start_raised, Fragment.stop_raised]
  refine .branch (by rw [Fragment.isEmpty_raised]) (fun _ => .error rfl) fun _ => ?_
  cases Register.ofName? ((piece.drop 1).takeWhile isIdent).text with
  | some register => exact .ok rfl
  | none => exact .error rfl

/-- An operand is read as the same operand, with the name of a label raised. -/
def SameOperand (operand other : Operand String) : Prop :=
  other = operand.map raise

theorem readRegisterOperand_alike :
    Alike SameOperand (readRegisterOperand slot piece) (readRegisterOperand slot piece.raised) := by
  refine .bind (readRegister_alike piece) ?_
  rintro ⟨register, rest⟩ _ rfl
  refine .branch (by rw [Fragment.isEmpty_raised]) ?_ fun _ => ?_
  · intro _
    rw [Fragment.trim_raised]
    exact .reject rest.trim rfl
  · refine .branch Iff.rfl (fun _ => .reject piece rfl) fun _ => ?_
    exact .branch Iff.rfl (fun _ => .reject piece rfl) fun _ => .ok rfl

theorem readLabelOperand_alike :
    Alike SameOperand (readLabelOperand slot piece) (readLabelOperand slot piece.raised) := by
  unfold readLabelOperand
  simp only [Fragment.takeWhile_raised _ isIdent_toUpper, Fragment.dropWhile_raised _ isIdent_toUpper,
    Fragment.text_raised, ofName?_raise, Fragment.trim_raised]
  refine .branch (by rw [Fragment.isEmpty_raised]) (fun _ => .reject _ rfl) fun _ => ?_
  refine .branch Iff.rfl (fun _ => .ok rfl) fun _ => ?_
  cases Register.ofName? (piece.takeWhile isIdent).text with
  | some register => exact .reject piece rfl
  | none => exact .reject piece rfl

theorem readConstantOperand_alike :
    Alike SameOperand (readConstantOperand slot piece) (readConstantOperand slot piece.raised) := by
  have same := readImmediate_raised piece.chars slot.size.bits
  unfold readConstantOperand
  refine .branch Iff.rfl (fun _ => .reject piece rfl) fun _ => ?_
  rw [Fragment.chars_raised]
  cases read : readImmediate slot.size.bits piece.chars with
  | ok constant =>
    cases other : readImmediate slot.size.bits (piece.chars.map Char.toUpper) with
    | ok _ =>
      rw [read, other] at same
      cases same
      exact .ok rfl
    | error _ => simp [read, other, Except.mapError] at same
  | error cause =>
    cases other : readImmediate slot.size.bits (piece.chars.map Char.toUpper) with
    | ok _ => simp [read, other, Except.mapError] at same
    | error _ =>
      rw [read, other] at same
      exact .reject piece (Except.error.inj same)

theorem readAddressRegister_alike (role : AddressRole) (context part : Fragment) :
    Alike (fun register other => other = register) (readAddressRegister role context part)
      (readAddressRegister role context.raised part.raised) := by
  unfold readAddressRegister
  refine .branch (part.head?_raised (by decide)).not ?_ fun _ => ?_
  · intro _
    rw [Fragment.isEmpty_raised]
    split
    · exact .reject context rfl
    · exact .reject part rfl
  · refine .bind (readRegister_alike part) ?_
    rintro ⟨register, rest⟩ _ rfl
    refine .branch (by rw [Fragment.isEmpty_raised]) ?_ fun _ => ?_
    · intro _
      rw [Fragment.trim_raised]
      exact .reject rest.trim rfl
    · refine .branch Iff.rfl (fun _ => .reject part ?_) fun _ => .ok rfl
      cases role <;> rfl

theorem readScale_cases (part : Fragment) :
    (∃ scale, readScale part = .ok scale) ∨ readScale part = reject part .invalidScale := by
  unfold readScale
  split
  · exact .inl ⟨1, rfl⟩
  · exact .inl ⟨2, rfl⟩
  · exact .inl ⟨4, rfl⟩
  · exact .inl ⟨8, rfl⟩
  · exact .inr rfl

theorem spellsScale_raised {chars : List Char} {scale : Nat} :
    SpellsScale (chars.map Char.toUpper) scale ↔ SpellsScale chars scale := by
  have digit (wanted : Char) (other : Unlettered wanted) :
      chars.map Char.toUpper = [wanted] ↔ chars = [wanted] := by
    simp [List.map_eq_cons_iff, toUpper_eq_iff other]
  apply and_congr_right
  intro listed
  simp only [List.mem_cons, List.not_mem_nil, or_false] at listed
  rcases listed with rfl | rfl | rfl | rfl
  · exact digit '1' (by decide)
  · exact digit '2' (by decide)
  · exact digit '4' (by decide)
  · exact digit '8' (by decide)

theorem readScale_alike (part : Fragment) :
    Alike (fun scale other => other = scale) (readScale part) (readScale part.raised) := by
  have raised (scale : Nat) : readScale part.raised = .ok scale ↔ readScale part = .ok scale := by
    rw [readScale_eq_ok_iff, readScale_eq_ok_iff]
    exact spellsScale_raised
  rcases readScale_cases part with ⟨scale, read⟩ | refused
  · rw [read, (raised scale).mpr read]
    exact .ok rfl
  · rcases readScale_cases part.raised with ⟨scale, reread⟩ | again
    · cases ((raised scale).mp reread).symm.trans refused
    · rw [refused, again]
      exact .reject part rfl

theorem readAddress_alike (piece outer : Fragment) (displacement : BitVec 64)
    (parts : List Fragment) :
    Alike (fun reference other => other = reference) (readAddress piece outer displacement parts)
      (readAddress piece.raised outer.raised displacement (parts.map Fragment.raised)) := by
  match parts with
  | [] => exact .reject outer rfl
  | [base] =>
    refine .bind (readAddressRegister_alike .base outer base) ?_
    rintro base _ rfl
    exact .ok rfl
  | [base, index] =>
    refine .bind (readAddressRegister_alike .base outer base) ?_
    rintro base _ rfl
    refine .bind (readAddressRegister_alike .index index index) ?_
    rintro index _ rfl
    exact .ok rfl
  | [base, index, scale] =>
    refine .bind (readAddressRegister_alike .base outer base) ?_
    rintro base _ rfl
    refine .bind (readAddressRegister_alike .index index index) ?_
    rintro index _ rfl
    refine .bind (readScale_alike scale) ?_
    rintro scale _ rfl
    exact .ok rfl
  | _ :: _ :: _ :: _ :: _ => exact .reject piece rfl

theorem readMemoryOperand_alike :
    Alike SameOperand (readMemoryOperand slot piece) (readMemoryOperand slot piece.raised) := by
  have opening : Unlettered '(' := by decide
  unfold readMemoryOperand
  refine .branch Iff.rfl (fun _ => .reject piece rfl) fun _ => ?_
  rw [Fragment.splitLast?_raised _ (by decide)]
  cases piece.splitLast? ')' with
  | none => exact .reject piece rfl
  | some parts =>
    obtain ⟨front, trailing⟩ := parts
    have closed (outer : Fragment) :
        (⟨outer.start, outer.chars.map Char.toUpper ++ [')']⟩ : Fragment) =
          Fragment.raised ⟨outer.start, outer.chars ++ [')']⟩ := by
      simp [Fragment.raised]
    have trims (parts : List Fragment) : (parts.map Fragment.raised).map Fragment.trim =
        (parts.map Fragment.trim).map Fragment.raised := by
      simp [Function.comp_def]
    simp only [Option.map_some, Fragment.dropWhile_ne_raised _ opening,
      Fragment.takeWhile_ne_raised _ opening, Fragment.trim_raised, Fragment.isEmpty_raised,
      Fragment.start_raised, Fragment.chars_raised, closed, Fragment.drop_raised,
      Fragment.splitCommas_raised, trims, readDisplacement?_raised]
    refine .branch Iff.rfl (fun _ => .reject piece rfl) fun _ => ?_
    refine .branch Iff.rfl (fun _ => .reject _ rfl) fun _ => ?_
    refine .branch Iff.rfl (fun _ => ?_) fun _ => ?_
    · refine .bind (readAddress_alike piece _ 0 _) ?_
      rintro reference _ rfl
      exact .ok rfl
    · cases readDisplacement? (front.takeWhile (· ≠ '(')).trim.chars with
      | none => exact .reject _ rfl
      | some displacement =>
        refine .bind (readAddress_alike piece _ displacement _) ?_
        rintro reference _ rfl
        exact .ok rfl

/-- Without a parenthesis the form of an operand is told by its first character. -/
theorem readOperand_flat {head : Char} (flat : '(' ∉ piece.chars) (first : piece.head? = some head) :
    readOperand slot piece =
      if head = '%' then readRegisterOperand slot piece
      else if head = '$' then readConstantOperand slot piece
      else if isIdentStart head = true then readLabelOperand slot piece
      else reject piece (.unrecognizedOperand piece.text) := by
  rw [readOperand, if_neg flat, first]
  split <;> simp_all

theorem readOperand_alike :
    Alike SameOperand (readOperand slot piece) (readOperand slot piece.raised) := by
  by_cases opens : '(' ∈ piece.chars
  · have open_raised : '(' ∈ piece.raised.chars := (mem_map_toUpper (by decide)).mpr opens
    rw [readOperand, if_pos opens, readOperand, if_pos open_raised]
    exact readMemoryOperand_alike slot piece
  · have flat : '(' ∉ piece.raised.chars := (mem_map_toUpper (by decide)).not.mpr opens
    have raised : piece.raised.head? = piece.head?.map Char.toUpper := List.head?_map
    cases first : piece.head? with
    | none =>
      rw [first] at raised
      rw [readOperand, if_neg opens, first, readOperand, if_neg flat, raised]
      exact .reject piece rfl
    | some head =>
      rw [first] at raised
      rw [readOperand_flat slot piece opens first, readOperand_flat slot piece.raised flat raised]
      refine .branch (toUpper_eq_iff (by decide) head) (fun _ => readRegisterOperand_alike slot piece)
        fun _ => ?_
      refine .branch (toUpper_eq_iff (by decide) head) (fun _ => readConstantOperand_alike slot piece)
        fun _ => ?_
      refine .branch (by rw [isIdentStart_toUpper]) (fun _ => readLabelOperand_alike slot piece)
        fun _ => ?_
      exact .reject piece rfl

end Operands

section Statements

variable (word rest : Fragment) (pieces : List Fragment)

def SamePieces (pieces others : List Fragment) : Prop :=
  others = pieces.map Fragment.raised

theorem trimPieces_alike (pieces : List Fragment) :
    Alike SamePieces (trimPieces pieces) (trimPieces (pieces.map Fragment.raised)) := by
  have ends (piece : Fragment) : piece.raised.trim.isEmpty = true ↔ piece.trim.isEmpty = true := by
    simp
  match pieces with
  | [] => exact .ok rfl
  | [last] =>
    refine .branch (ends last) (fun _ => .error_of_span (by simp) rfl) fun _ => ?_
    exact .ok (by simp [SamePieces])
  | piece :: second :: rest =>
    refine .branch (ends piece) (fun _ => .error_of_span (by simp) rfl) fun _ => ?_
    refine .bind (trimPieces_alike (second :: rest)) ?_
    rintro trimmed _ rfl
    exact .ok (by simp [SamePieces])

theorem operandPieces_alike : Alike SamePieces (operandPieces rest) (operandPieces rest.raised) := by
  unfold operandPieces
  simp only [Fragment.trim_raised, Fragment.isEmpty_raised, Fragment.splitOuterCommas_raised]
  exact .branch Iff.rfl (fun _ => .ok rfl) fun _ => trimPieces_alike _

theorem lower_raised :
    word.raised.chars.map Char.toLower = word.chars.map Char.toLower := by
  simp

/-- A word that is no mnemonic is refused for one reason, whatever is suggested instead. -/
theorem decodeMnemonic_alike (others : List Fragment) :
    Alike (fun mnemonic other => other = mnemonic) (decodeMnemonic word pieces)
      (decodeMnemonic word.raised others) := by
  unfold decodeMnemonic
  simp only [lower_raised]
  cases Mnemonic.decode (word.chars.map Char.toLower) with
  | ok mnemonic => exact .ok rfl
  | error reason =>
    refine .reject word ?_
    cases reason <;> simp only [ErrorCause.kind]

theorem piecesSpan_raised :
    piecesSpan word.raised (pieces.map Fragment.raised) = piecesSpan word pieces := by
  cases pieces with
  | nil => exact word.span_raised
  | cons first rest =>
    simp only [List.map_cons, piecesSpan, List.getLast?_map]
    cases rest.getLast? <;> simp

theorem isMemory_map (operand : Operand String) : (operand.map raise).isMemory = operand.isMemory := by
  cases operand <;> rfl

def SameOperands (operands others : Operands String) : Prop :=
  others = operands.map raise

theorem readOperands_alike (mnemonic : Mnemonic) :
    Alike SameOperands (readOperands mnemonic word pieces)
      (readOperands mnemonic word.raised (pieces.map Fragment.raised)) := by
  have count (expected : Nat) : Alike SameOperands
      (.error ⟨.operandCount (String.ofList (word.chars.map Char.toLower)) expected,
        piecesSpan word pieces⟩)
      (.error ⟨.operandCount (String.ofList (word.raised.chars.map Char.toLower)) expected,
        piecesSpan word.raised (pieces.map Fragment.raised)⟩) := by
    rw [piecesSpan_raised]
    exact .error rfl
  unfold readOperands
  rcases mnemonic.slots with _ | ⟨slot, _ | ⟨second, _ | _⟩⟩ <;>
    rcases pieces with _ | ⟨piece, _ | ⟨target, _ | _⟩⟩
  -- Operands are read only when there are as many pieces as places.
  any_goals exact count _
  · exact .ok rfl
  · refine .bind (readOperand_alike slot piece) ?_
    rintro operand _ rfl
    exact .ok rfl
  · refine .branch (target.head?_raised (by decide)) (fun _ => .reject target rfl) fun _ => ?_
    refine .bind (readOperand_alike slot piece) ?_
    rintro source _ rfl
    refine .bind (readOperand_alike second target) ?_
    rintro destination _ rfl
    refine .branch (by rw [isMemory_map, isMemory_map]) (fun _ => .reject target rfl) fun _ => ?_
    exact .ok rfl

/-- A statement that names labels but defines none, and the same one with their names raised. -/
structure SameStatement (statement other : Statement String) : Prop where
  raised : other = statement.map raise
  undefining : ∀ name, statement ≠ .label name

theorem readInstruction_alike :
    Alike SameStatement (readInstruction word rest) (readInstruction word.raised rest.raised) := by
  refine .bind (operandPieces_alike rest) ?_
  rintro pieces _ rfl
  refine .bind (decodeMnemonic_alike word pieces _) ?_
  rintro _ mnemonic rfl
  refine .bind (readOperands_alike word pieces mnemonic) ?_
  rintro operands _ rfl
  exact .ok ⟨rfl, nofun⟩

/-- Without a colon there is no label definition, of which the name would be told apart by its case. -/
theorem readStatement_plain {body : Fragment} (plain : ':' ∉ body.chars) :
    readStatement body =
      if !body.head?.any isIdentStart then reject body .notAStatement
      else if (body.dropWhile isIdent).head?.any (!isBlank ·) then reject body .notAStatement
      else readInstruction (body.takeWhile isIdent) (body.dropWhile isIdent) := by
  have undefined : (body.dropWhile isIdent).trim.head? ≠ some ':' := by
    intro colon
    have member := Fragment.mem_of_mem_trim (List.mem_of_mem_head? colon)
    exact plain ((List.dropWhile_suffix _).subset member)
  rw [readStatement, if_neg undefined]

theorem readStatement_alike {body : Fragment} (plain : ':' ∉ body.chars) :
    Alike SameStatement (readStatement body) (readStatement body.raised) := by
  have plain_raised : ':' ∉ body.raised.chars := (mem_map_toUpper (by decide)).not.mpr plain
  have started := body.any_head?_raised isIdentStart_toUpper
  have visible (char : Char) : (!isBlank char.toUpper) = !isBlank char := by rw [isBlank_toUpper]
  have ended : (body.dropWhile isIdent).raised.head?.any (!isBlank ·) =
      (body.dropWhile isIdent).head?.any (!isBlank ·) :=
    Fragment.any_head?_raised _ visible
  rw [readStatement_plain plain, readStatement_plain plain_raised, Fragment.takeWhile_raised _
    isIdent_toUpper, Fragment.dropWhile_raised _ isIdent_toUpper]
  refine .branch (by rw [started]) (fun _ => .reject body rfl) fun _ => ?_
  refine .branch (by rw [ended]) (fun _ => .reject body rfl) fun _ => ?_
  exact readInstruction_alike _ _

end Statements

section Lines

/-- The text with the letters before its comment raised. -/
def raiseBody (text : String) : String :=
  String.ofList ((text.toList.takeWhile (· ≠ '#')).map Char.toUpper ++ text.toList.dropWhile (· ≠ '#'))

variable (text : String)

theorem before_raised (char : Char)
    (member : char ∈ (text.toList.takeWhile (· ≠ '#')).map Char.toUpper) :
    decide (char ≠ '#') = true := by
  rw [← map_takeWhile_raised (ne_toUpper (by decide))] at member
  exact List.mem_takeWhile_imp (p := (· ≠ '#')) member

theorem behind_marked (char : Char) (head : char ∈ (text.toList.dropWhile (· ≠ '#')).head?) :
    decide (char ≠ '#') = false := by
  have rejected := List.head?_dropWhile_not (· ≠ '#') text.toList
  rw [head] at rejected
  simpa using rejected

theorem takeWhile_raiseBody : (Fragment.ofString (raiseBody text)).takeWhile (· ≠ '#') =
    ((Fragment.ofString text).takeWhile (· ≠ '#')).raised := by
  rw [Fragment.ofString, raiseBody, String.toList_ofList]
  exact Fragment.takeWhile_append 0 _ (before_raised text) (behind_marked text)

theorem dropWhile_raiseBody : (Fragment.ofString (raiseBody text)).dropWhile (· ≠ '#') =
    (Fragment.ofString text).dropWhile (· ≠ '#') := by
  rw [Fragment.ofString, raiseBody, String.toList_ofList,
    Fragment.dropWhile_append 0 _ (before_raised text) (behind_marked text), List.length_map]
  rfl

/-- Drafts with the same comment, of which the statements are the same. -/
structure SameDraft (draft other : Draft) : Prop where
  statement : SameStatement draft.statement other.statement
  comment : other.comment = draft.comment

variable {text} (plain : ':' ∉ text.toList.takeWhile (· ≠ '#'))
include plain

theorem readDraft_alike : Alike SameDraft (readDraft text) (readDraft (raiseBody text)) := by
  have plain_body : ':' ∉ ((Fragment.ofString text).takeWhile (· ≠ '#')).trim.chars :=
    fun member => plain (Fragment.mem_of_mem_trim member)
  unfold readDraft
  simp only [takeWhile_raiseBody, dropWhile_raiseBody, Fragment.trim_raised,
    Fragment.takeWhile_raised _ isIdent_toUpper, Fragment.span_raised, Fragment.isEmpty_raised]
  refine .branch Iff.rfl (fun _ => ?_) fun _ => ?_
  · refine .ok ⟨?_, rfl⟩
    split
    · exact ⟨rfl, nofun⟩
    · exact ⟨rfl, nofun⟩
  · refine .bind (readStatement_alike plain_body) ?_
    intro statement other same
    exact .ok ⟨same, rfl⟩

/-- Letter case says nothing before the comment of a line without a label definition, except in the
name of a branch target. -/
theorem Session.parseLine_caseless (session : Session) :
    (∃ line next other after, session.parseLine text = (.ok line, next) ∧
        session.parseLine (raiseBody text) = (.ok other, after) ∧
        other = { line with statement := other.statement } ∧
        other.statement.names = line.statement.names.map raise) ∨
      ∃ error other, session.parseLine text = (.error error, session) ∧
        session.parseLine (raiseBody text) = (.error other, session) ∧
        other.cause.kind = error.cause.kind ∧ other.span = error.span := by
  have alike := readDraft_alike plain
  generalize read : readDraft text = result at alike
  generalize reread : readDraft (raiseBody text) = other at alike
  cases alike with
  | error kind =>
    exact .inr ⟨_, _, parseLine_of_unread read, parseLine_of_unread reread, kind, rfl⟩
  | @ok draft raised same =>
    left
    have defines (name : String) : raised.statement ≠ .label name := by
      rw [same.statement.raised]
      cases statement : draft.statement with
      | label name => exact absurd statement (same.statement.undefining name)
      | _ => nofun
    obtain ⟨line, next, accepted⟩ := session.parseLine_of_undefined read
      fun name label => absurd label (same.statement.undefining name)
    obtain ⟨other, after, reaccepted⟩ := session.parseLine_of_undefined reread
      fun name label => absurd label (defines name)
    have first := parseLine_ok accepted
    have second := parseLine_ok reaccepted
    obtain ⟨_, names⟩ := first.draft
    obtain ⟨_, renames⟩ := second.draft
    cases read.symm.trans names
    cases reread.symm.trans renames
    have comment : other.comment = line.comment := same.comment
    refine ⟨line, next, other, after, accepted, reaccepted, ?_, same.statement.raised⟩
    obtain ⟨number, statement, otherComment, breakpoint⟩ := other
    simp only [Line.mk.injEq, true_and]
    exact ⟨second.number.trans first.number.symm, comment, second.unmarked.trans first.unmarked.symm⟩

end Lines

/-- The name of the target is raised, the comment is not. -/
theorem Session.parseLine_caseless_branch :
    ':' ∉ "jNe Loop_1 # Back".toList.takeWhile (· ≠ '#') ∧
      raiseBody "jNe Loop_1 # Back" = "JNE LOOP_1 # Back" ∧
      ∃ line next other after,
        Session.empty.parseLine "jNe Loop_1 # Back" = (.ok line, next) ∧
          Session.empty.parseLine (raiseBody "jNe Loop_1 # Back") = (.ok other, after) ∧
          other = { line with statement := other.statement } ∧
          other.statement.names = line.statement.names.map raise := by
  have plain : ':' ∉ "jNe Loop_1 # Back".toList.takeWhile (· ≠ '#') := by decide
  have accepted : ∃ line next, Session.empty.parseLine "jNe Loop_1 # Back" = (.ok line, next) :=
    ⟨_, _, rfl⟩
  obtain ⟨line, next, accepted⟩ := accepted
  refine ⟨plain, by decide, (Session.parseLine_caseless plain Session.empty).resolve_right ?_⟩
  rintro ⟨error, _, rejected, -⟩
  cases accepted.symm.trans rejected

end AsmLab.Source
