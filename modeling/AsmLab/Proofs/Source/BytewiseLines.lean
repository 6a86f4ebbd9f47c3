import AsmLab.Proofs.Source.BytewiseAgreement
import AsmLab.Proofs.Source.Resolution

/-! Whole lines by their bytes: the operands between commas, the statements, and the split into a
statement and a comment. -/
namespace AsmLab.Source

variable {text : String} {range : Span} {ranges : List Span} {fragment piece word rest : Fragment}
  {pieces : List Fragment} {start : Nat} {chars : List Char}

namespace Fragment

theorem Separated.ne_nil (separated : Separated start chars pieces) : pieces ≠ [] := by
  cases separated <;> exact List.cons_ne_nil _ _

theorem trim_start_le (start : Nat) (chars : List Char) :
    start ≤ (trim ⟨start, chars⟩).start ∧ (trim ⟨start, chars⟩).start ≤ start + chars.length := by
  obtain ⟨left, right, whole, _, _, starts⟩ := exists_trim_eq start chars
  have length := congrArg List.length whole
  simp only [List.length_append] at length
  omega

theorem Separated.ordered (separated : Separated start chars pieces) :
    (∀ piece ∈ pieces.map trim, start ≤ piece.start) ∧
      (pieces.map trim).Pairwise (fun first later => first.start ≤ later.start) := by
  induction separated with
  | last start chars => simp [trim_start_le start chars]
  | @comma start rest pieces front later ih =>
    obtain ⟨behind, ordered⟩ := ih
    have bounds := trim_start_le start front
    rw [List.map_cons]
    constructor
    · intro piece member
      rcases List.mem_cons.mp member with rfl | member
      · exact bounds.1
      · have after := behind piece member
        omega
    · refine List.pairwise_cons.mpr ⟨fun piece member => ?_, ordered⟩
      have after := behind piece member
      omega

end Fragment

/-- The operand pieces of an instruction, in the order of the line. -/
structure PiecesAt (text : String) (ranges : List Span) (pieces : List Fragment) : Prop where
  placed : List.Forall₂ (Fragment.LiesAt text) ranges pieces
  solid : ∀ piece ∈ pieces, Solid piece.chars
  ordered : pieces.Pairwise fun first later => first.start ≤ later.start

/-- A comma stands right in front of a position. -/
def FollowsComma (text : String) (position column : Nat) : Prop :=
  ∃ before front, position = before + 1 ∧ column = front + 1 ∧
    Fragment.LiesAt text ⟨before, before + 1⟩ ⟨front, [',']⟩

theorem missingOperand_pointsAt {position column : Nat}
    (lies : Fragment.LiesAt text ⟨position, position + 1⟩ ⟨column, [',']⟩) :
    PointsAt text ⟨.missingOperand, ⟨position, position + 1⟩⟩
      ⟨.missingOperand, ⟨column, column + 1⟩⟩ :=
  .of_lies lies (List.cons_ne_nil _ _) rfl

/-- One piece, of which only blanks may be left. -/
theorem trimPiece_mirrors {First Second : Type} {Related : First → Second → Prop}
    {missing : Except Halt First} {next : Span → Except Halt First}
    {missingChars nextChars : Except ParseError Second} (lies : piece.LiesAt text range)
    (empty : piece.trim.chars = [] → Mirrors text Related missing missingChars)
    (present : ∀ trimmed, piece.trim.LiesAt text trimmed → Solid piece.trim.chars →
      Mirrors text Related (next trimmed) nextChars) :
    Mirrors text Related
      (do
        let piece ← Bytewise.trim text range
        if piece.isEmpty then missing else next piece)
      (if piece.trim.isEmpty then missingChars else nextChars) := by
  obtain ⟨trimmed, done, trimmedLies⟩ := lies.exists_trim
  refine .step done (.branch (by rw [trimmedLies.isEmpty_eq]) ?_ ?_)
  · intro blank
    exact empty (Fragment.isEmpty_iff.mp blank)
  · intro visible
    exact present trimmed trimmedLies (Fragment.solid_trim visible)

/-- The pieces that are left of some pieces without their blanks. -/
structure TrimmedFrom (text : String) (pieces : List Fragment) (ranges : List Span)
    (trimmed : List Fragment) : Prop where
  placed : List.Forall₂ (Fragment.LiesAt text) ranges trimmed
  trims : trimmed = pieces.map Fragment.trim
  solid : ∀ piece ∈ trimmed, Solid piece.chars

theorem TrimmedFrom.cons {trimmed : List Fragment} (lies : piece.trim.LiesAt text range)
    (solid : Solid piece.trim.chars) (later : TrimmedFrom text pieces ranges trimmed) :
    TrimmedFrom text (piece :: pieces) (range :: ranges) (piece.trim :: trimmed) where
  placed := .cons lies later.placed
  trims := by rw [later.trims, List.map_cons]
  solid := List.forall_mem_cons.mpr ⟨solid, later.solid⟩

/-- The last piece is empty only behind a comma, since the operands end in no blank. -/
theorem trimPieces_last (lies : Fragment.LiesAt text range ⟨start, chars⟩)
    (last : ∀ char ∈ chars.getLast?, isBlank char = false)
    (follows : chars = [] → FollowsComma text range.start start) :
    Mirrors text (TrimmedFrom text [⟨start, chars⟩]) (Bytewise.trimPieces text [range])
      (trimPieces [⟨start, chars⟩]) := by
  refine trimPiece_mirrors lies ?_ fun trimmed trimmedLies solid => ?_
  · intro blank
    have nothing : chars = [] := by
      by_contra nonempty
      exact Fragment.trim_ne_nil start nonempty last blank
    obtain ⟨before, front, position, column, comma⟩ := follows nothing
    have stop : range.stop = before + 1 := by
      rw [lies.stop_eq, nothing, byteLength_nil, Nat.add_zero, position]
    have columnStop : Fragment.stop ⟨start, chars⟩ = front + 1 := by
      rw [Fragment.stop, nothing, List.length_nil, Nat.add_zero, column]
    rw [stop, columnStop]
    exact .rejected (missingOperand_pointsAt comma)
  · exact .ok (.cons trimmedLies solid ⟨.nil, rfl, List.forall_mem_nil _⟩)

theorem liesAt_comma {front after : List Char}
    (lies : Fragment.LiesAt text range ⟨start, front ++ ',' :: after⟩) :
    Fragment.LiesAt text ⟨range.start + byteLength front, range.start + byteLength front + 1⟩
      ⟨start + front.length, [',']⟩ := by
  have behind : Fragment.LiesAt text ⟨range.start + byteLength front, range.stop⟩
      ⟨start + front.length, [','] ++ after⟩ := lies.split.2
  exact behind.split.1

theorem trimPieces_mirrors (separated : Fragment.Separated start chars pieces)
    (lies : Fragment.LiesAt text range ⟨start, chars⟩)
    (placed : List.Forall₂ (Fragment.LiesAt text) ranges pieces)
    (last : ∀ char ∈ chars.getLast?, isBlank char = false)
    (follows : chars = [] → FollowsComma text range.start start) :
    Mirrors text (TrimmedFrom text pieces) (Bytewise.trimPieces text ranges)
      (trimPieces pieces) := by
  induction separated generalizing range ranges with
  | last start chars =>
    cases placed with
    | cons placed none =>
      cases none
      obtain rfl := lies.unique placed
      exact trimPieces_last lies last follows
  | @comma start rest pieces front later ih =>
    obtain ⟨current, behind⟩ := lies.split
    cases placed with
    | @cons first _ ranges _ firstPlaced laterPlaced =>
      obtain rfl := current.unique firstPlaced
      have lastRest : ∀ char ∈ rest.getLast?, isBlank char = false :=
        last_of_suffix ⟨front ++ [','], by simp⟩ last
      have others := ih behind.tail laterPlaced lastRest
        fun _ => ⟨_, _, rfl, rfl, liesAt_comma lies⟩
      have more : ranges ≠ [] := by
        rintro rfl
        exact later.ne_nil (List.forall₂_nil_left_iff.mp laterPlaced)
      rw [Bytewise.trimPieces.eq_3 _ _ _ more, trimPieces.eq_3 _ _ later.ne_nil]
      refine trimPiece_mirrors current ?_ fun trimmed trimmedLies solid => ?_
      · intro _
        exact .rejected (missingOperand_pointsAt (liesAt_comma lies))
      · refine .bind others fun ranges rest trimmedRest => ?_
        exact .ok (.cons trimmedLies solid trimmedRest)

theorem parenthesisNesting_flat (char : Char) (hidden : shown? char = none) :
    Fragment.parenthesisNesting char = 0 := by
  have other (wanted : Char) (ascii : wanted.toNat < 128) : char ≠ wanted := by
    rintro rfl
    simp [shown?, ascii] at hidden
  rw [Fragment.parenthesisNesting, if_neg (other '(' (by decide)), if_neg (other ')' (by decide))]

theorem operandPieces_mirrors (lies : rest.LiesAt text range) :
    Mirrors text (PiecesAt text) (Bytewise.operandPieces text range) (operandPieces rest) := by
  refine trimPiece_mirrors lies (fun _ => .ok ⟨.nil, ?_, .nil⟩) fun trimmed trimmedLies solid => ?_
  · exact List.forall_mem_nil _
  · obtain ⟨ranges, cut, placed⟩ := trimmedLies.exists_pieces parenthesisNesting_flat
    have separated := Fragment.separated_cutCommas Fragment.parenthesisNesting 0
      rest.trim.start rest.trim.chars
    have pieces := trimPieces_mirrors separated trimmedLies placed solid.trimmed.2
      fun empty => absurd empty solid.nonempty
    refine .step cut (pieces.mono fun ranges trimmed left => ?_)
    refine ⟨left.placed, left.solid, ?_⟩
    rw [left.trims]
    exact separated.ordered.2

theorem registerHint_eq (placed : List.Forall₂ (Fragment.LiesAt text) ranges pieces) :
    Bytewise.registerHint text ranges = .ok (registerHint pieces) := by
  induction placed with
  | nil => rfl
  | @cons range piece ranges pieces lies later ih =>
    obtain ⟨start, chars⟩ := piece
    have spelled : Bytewise.slice text range = .ok chars := lies.slice_eq
    have later : Bytewise.registerHint text ranges = .ok (registerHint pieces) := ih
    rw [Bytewise.registerHint, spelled, registerHint, List.findSome?_cons, ← registerHint]
    simp only [bind, Except.bind]
    split
    · rename_i name
      have stripped : Fragment.stripStart? ['%'] ⟨start, '%' :: name⟩ = some ⟨start + 1, name⟩ :=
        if_pos ⟨name, rfl⟩
      simp only [stripped, Option.bind_some, Fragment.text]
      cases Register.ofName? (String.ofList name) with
      | some register => rfl
      | none => exact later
    · rename_i other
      have stripped : Fragment.stripStart? ['%'] ⟨start, chars⟩ = none := by
        refine if_neg ?_
        rintro ⟨name, whole⟩
        exact other name whole.symm
      simp only [stripped, Option.bind_none]
      exact later

theorem decodeMnemonic_mirrors (lies : word.LiesAt text range) (nonempty : word.chars ≠ [])
    (placed : List.Forall₂ (Fragment.LiesAt text) ranges pieces) :
    Mirrors text Eq
      (Bytewise.decodeMnemonic text range (word.chars.map Char.toLower) ranges)
      (decodeMnemonic word pieces) := by
  unfold Bytewise.decodeMnemonic decodeMnemonic
  dsimp only
  cases Mnemonic.decode (word.chars.map Char.toLower) with
  | ok mnemonic => exact .ok rfl
  | error reason => exact .step (registerHint_eq placed) (.reject lies nonempty rfl)

theorem liesAt_last {lastRange : Span} {last : Fragment} (lies : last.LiesAt text lastRange)
    (placed : List.Forall₂ (Fragment.LiesAt text) ranges pieces) :
    (pieces.getLast?.getD last).LiesAt text (ranges.getLast?.getD lastRange) := by
  induction placed generalizing last lastRange with
  | nil => exact lies
  | cons next _ ih =>
    rw [List.getLast?_cons, List.getLast?_cons, Option.getD_some, Option.getD_some]
    exact ih next

theorem piecesSpan_pointsAt {cause : ErrorCause} (lies : word.LiesAt text range)
    (nonempty : word.chars ≠ []) (piecesAt : PiecesAt text ranges pieces)
    (other : cause.isAboutPart = false) :
    PointsAt text ⟨cause, Bytewise.piecesSpan range ranges⟩ ⟨cause, piecesSpan word pieces⟩ := by
  obtain ⟨placed, solid, ordered⟩ := piecesAt
  cases placed with
  | nil => exact .of_lies lies nonempty other
  | @cons _ first _ pieces firstLies later =>
    have member : pieces.getLast?.getD first ∈ first :: pieces :=
      List.mem_of_getLast? List.getLast?_cons
    have least : ∀ piece ∈ first :: pieces, first.start ≤ piece.start :=
      List.forall_mem_cons.mpr ⟨Nat.le_refl _, (List.pairwise_cons.mp ordered).1⟩
    have length := List.length_pos_iff.mpr (solid _ member).nonempty
    have visible : first.start < (pieces.getLast?.getD first).stop :=
      Nat.lt_of_le_of_lt (least _ member) (Nat.lt_add_of_pos_right length)
    exact .between firstLies.columns.1 (liesAt_last firstLies later).columns.2 visible other

theorem readOperands_mirrors (mnemonic : Mnemonic) (lies : word.LiesAt text range)
    (nonempty : word.chars ≠ []) (piecesAt : PiecesAt text ranges pieces) :
    Mirrors text Eq
      (Bytewise.readOperands text mnemonic range (word.chars.map Char.toLower) ranges)
      (readOperands mnemonic word pieces) := by
  have count (expected : Nat) : Mirrors text Eq
      (Bytewise.fail (Bytewise.piecesSpan range ranges)
        (.operandCount (String.ofList (word.chars.map Char.toLower)) expected))
      (.error ⟨.operandCount (String.ofList (word.chars.map Char.toLower)) expected,
        piecesSpan word pieces⟩ : Except ParseError (Operands String)) :=
    .rejected (piecesSpan_pointsAt lies nonempty piecesAt rfl)
  have placed := piecesAt.placed
  have solid := piecesAt.solid
  unfold Bytewise.readOperands readOperands
  rcases mnemonic.slots with _ | ⟨slot, _ | ⟨second, _ | _⟩⟩ <;>
    rcases placed with _ | ⟨pieceLies, _ | ⟨secondLies, _ | _⟩⟩
  -- Operands are read only when there are as many pieces as places.
  any_goals exact count _
  · exact .ok rfl
  · refine .bind (readOperand_mirrors slot pieceLies (solid _ (by simp))) ?_
    rintro operand _ rfl
    exact .ok rfl
  · rename_i sourceRange source secondRange piece
    have pieceSolid := solid piece (by simp)
    obtain ⟨byte, found, shows⟩ := secondLies.exists_head pieceSolid.nonempty
    have alike : ascii? byte = some '$' ↔ piece.head? = some '$' := by
      rw [shows]
      exact bind_shown?_eq_some (by decide) _
    refine .step found (.branch alike ?_ ?_)
    · intro _
      exact .reject secondLies pieceSolid.nonempty rfl
    · intro _
      refine .bind (readOperand_mirrors slot pieceLies (solid source (by simp))) ?_
      rintro source _ rfl
      refine .bind (readOperand_mirrors second secondLies pieceSolid) ?_
      rintro destination _ rfl
      refine .branch Iff.rfl (fun _ => .reject secondLies pieceSolid.nonempty rfl) fun _ => ?_
      exact .ok rfl

theorem readInstruction_mirrors (lies : word.LiesAt text range) (nonempty : word.chars ≠ [])
    {restRange : Span} (restLies : rest.LiesAt text restRange) :
    Mirrors text Eq (Bytewise.readInstruction text range restRange)
      (readInstruction word rest) := by
  refine .step lies.slice_eq (.bind (operandPieces_mirrors restLies) ?_)
  intro ranges pieces piecesAt
  refine .bind (decodeMnemonic_mirrors lies nonempty piecesAt.placed) ?_
  rintro mnemonic _ rfl
  refine .bind (readOperands_mirrors mnemonic lies nonempty piecesAt) ?_
  rintro operands _ rfl
  exact .ok rfl

theorem readLabelDefinition_mirrors (lies : word.LiesAt text range) (nonempty : word.chars ≠ [])
    {restRange : Span} (restLies : rest.LiesAt text restRange) :
    Mirrors text Eq (Bytewise.readLabelDefinition text range restRange)
      (readLabelDefinition word rest) := by
  obtain ⟨trimmed, done, trimmedLies⟩ := restLies.exists_trim
  refine .step done (.branch (by rw [trimmedLies.isEmpty_eq]) ?_ ?_)
  · intro visible
    exact .reject trimmedLies (Fragment.not_isEmpty_iff.mp visible) rfl
  · intro _
    refine .step lies.slice_eq ?_
    simp only [Fragment.text]
    cases Register.ofName? (String.ofList word.chars) with
    | some register => exact .reject lies nonempty rfl
    | none => exact .ok rfl

variable {body : Fragment}

/-- Of a line with a statement the first word is not empty. -/
theorem readStatement_mirrors (lies : body.LiesAt text range) (solid : Solid body.chars) :
    Mirrors text
      (fun counted statement => counted = statement ∧ (body.takeWhile isIdent).chars ≠ [])
      (Bytewise.readStatement text range) (readStatement body) := by
  obtain ⟨byte, found, shows⟩ := lies.exists_head solid.nonempty
  obtain ⟨stop, scanned, word, rest⟩ := lies.exists_scan asciiOnly_isIdent
  obtain ⟨trimmed, done, trimmedLies⟩ := rest.exists_trim
  obtain ⟨first, foundFirst, showsFirst⟩ := trimmedLies.exists_first
  obtain ⟨next, foundNext, showsNext⟩ := rest.exists_first
  have starts : (!(ascii? byte).any isIdentStart) = true ↔ (!body.head?.any isIdentStart) = true := by
    rw [shows, bind_shown?_any asciiOnly_isIdentStart]
  have defines : (first.any fun byte => ascii? byte = some ':') = true ↔
      (body.dropWhile isIdent).trim.head? = some ':' := by
    rw [showsFirst fun shown => shown = some ':']
    cases (body.dropWhile isIdent).trim.head? with
    | none => simp
    | some char => simp [shown?_eq_some (by decide : ':'.toNat < 128)]
  have joined : (next.any fun byte => !(ascii? byte).any isBlank) = true ↔
      ((body.dropWhile isIdent).head?.any (!isBlank ·)) = true := by
    rw [showsNext fun shown => !shown.any isBlank]
    simp only [shown?_any asciiOnly_isBlank]
  refine .step found (.branch starts (fun _ => .reject lies solid.nonempty rfl) fun start => ?_)
  have wordNonempty : (body.takeWhile isIdent).chars ≠ [] :=
    (isName_takeWhile (by simpa using start)).ne_nil
  refine .step scanned (.step done (.step foundFirst (.branch defines ?_ fun _ => ?_)))
  · intro colon
    -- The text behind the colon ends with the body, which ends in no blank.
    have stops : trimmed.stop = range.stop :=
      rest.trim_stop (solid.last (List.dropWhile_suffix isIdent)) trimmedLies
    rw [← stops]
    have rest := trimmedLies.drop_one colon (by decide)
    exact (readLabelDefinition_mirrors word wordNonempty rest).mono
      fun _ _ same => ⟨same, wordNonempty⟩
  · refine .step foundNext (.branch joined (fun _ => .reject lies solid.nonempty rfl) fun _ => ?_)
    exact (readInstruction_mirrors word wordNonempty rest).mono
      fun _ _ same => ⟨same, wordNonempty⟩

theorem splitComment_eq (text : String) :
    let line := Fragment.ofString text
    let marked := line.dropWhile (· ≠ '#')
    ∃ front, Bytewise.splitComment text =
        .ok (front, if marked.isEmpty then none else some (marked.drop 1).text) ∧
      (line.takeWhile (· ≠ '#')).LiesAt text front := by
  have lies : Fragment.LiesAt text _ ⟨0, text.toList⟩ := .whole text
  unfold Bytewise.splitComment Fragment.ofString
  dsimp only
  by_cases signed : '#' ∈ text.toList
  · obtain ⟨front, rest, whole, absent⟩ := List.eq_append_cons_of_mem signed
    rw [whole] at lies ⊢
    obtain ⟨before, behind⟩ := lies.split
    rw [Bytewise.find?_append front rest absent, Fragment.takeWhile_ne_append absent,
      Fragment.dropWhile_ne_append absent]
    have after := behind.drop_one rfl (by decide)
    rw [Nat.zero_add] at before after
    refine ⟨_, ?_, before⟩
    dsimp only
    rw [after.slice_eq]
    rfl
  · rw [Bytewise.find?_eq_none signed, Fragment.takeWhile_ne_eq signed,
      Fragment.dropWhile_ne_eq signed]
    exact ⟨_, rfl, lies⟩

/-- What the two readers tell about a line. -/
structure DraftsAlike (text : String) (counted draft : Draft) : Prop where
  statement : counted.statement = draft.statement
  comment : counted.comment = draft.comment
  start : columnAt? text.toList counted.keyword.start = some draft.keyword.start
  stop : columnAt? text.toList counted.keyword.stop = some draft.keyword.stop
  visible : ∀ name, draft.statement = .label name → draft.keyword.start < draft.keyword.stop

theorem readDraft_mirrors (text : String) :
    Mirrors text (DraftsAlike text) (Bytewise.readDraft text) (readDraft text) := by
  obtain ⟨front, split, frontLies⟩ := splitComment_eq text
  obtain ⟨body, trimmed, bodyLies⟩ := frontLies.exists_trim
  obtain ⟨stop, scanned, word, _⟩ := bodyLies.exists_scan asciiOnly_isIdent
  refine .step split (.step trimmed (.step scanned (.branch (by rw [bodyLies.isEmpty_eq]) ?_ ?_)))
  · intro _
    refine .ok ⟨rfl, rfl, word.columns.1, word.columns.2, ?_⟩
    intro name label
    dsimp only at label
    split at label <;> cases label
  · intro visible
    generalize (Fragment.ofString text).takeWhile (· ≠ '#') = line at *
    refine .bind (readStatement_mirrors bodyLies (Fragment.solid_trim visible)) ?_
    rintro statement _ ⟨rfl, wordNonempty⟩
    refine .ok ⟨rfl, rfl, word.columns.1, word.columns.2, fun _ _ => ?_⟩
    exact Nat.lt_add_of_pos_right (List.length_pos_iff.mpr wordNonempty)

namespace Session

variable {session : Session}

theorem resolve_error_keyword {keyword other : Span} {statement : Statement String}
    {error : ParseError} {labels : LabelTable}
    (failed : session.resolve keyword statement = (.error error, labels)) :
    ∃ name line, statement = .label name ∧ error = ⟨.duplicateLabel name line, keyword⟩ ∧
      session.resolve other statement = (.error ⟨.duplicateLabel name line, other⟩, labels) := by
  cases statement with
  | blank => cases failed
  | comment => cases failed
  | instruction body => cases failed
  | label name =>
    simp only [resolve] at *
    split at failed
    · rename_i line defined
      cases failed
      exact ⟨name, line, rfl, rfl, by simp only⟩
    · cases failed

end Session

theorem parseLine_mirrors (session : Session) (text : String) :
    (Bytewise.parseLine session text).2 = (session.parseLine text).2 ∧
      Mirrors text Eq (Bytewise.parseLine session text).1 (session.parseLine text).1 := by
  have drafts := readDraft_mirrors text
  unfold Bytewise.parseLine Session.parseLine
  generalize Bytewise.readDraft text = counted, readDraft text = read at drafts
  cases drafts with
  | rejected points => exact ⟨rfl, .rejected points⟩
  | @ok counted draft alike =>
    obtain ⟨statement, comment, start, stop, visible⟩ := alike
    dsimp only
    rw [statement, comment]
    cases resolved : session.resolve draft.keyword draft.statement with
    | mk result labels =>
      cases result with
      | ok accepted =>
        rw [Session.resolve_keyword resolved]
        exact ⟨rfl, .ok rfl⟩
      | error error =>
        obtain ⟨name, line, label, rfl, other⟩ := Session.resolve_error_keyword resolved
        rw [other]
        exact ⟨rfl, .rejected (.between start stop (visible name label) rfl)⟩

end AsmLab.Source
