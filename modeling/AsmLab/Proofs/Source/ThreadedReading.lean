import AsmLab.Proofs.Source.Acceptance
import AsmLab.Source.Session

/-! Reading a line in one pass that has the label table at hand all the time. A label name enters the
table as soon as its operand is read, and whatever is wrong later leaves it there. It comes to the same
as reading the whole line first and looking its names up then, since the only operand that can be a
label is the last thing that can go wrong. -/
namespace AsmLab.Source

/-- A reading of a part of a line, which may add to the label table whether it succeeds or not. -/
def Threaded (Value : Type) : Type :=
  LabelTable → Except ParseError Value × LabelTable

namespace Threaded

variable {Value : Type}

instance : Monad Threaded where
  pure value labels := (.ok value, labels)
  bind first next labels :=
    match first labels with
    | (.ok value, labels) => next value labels
    | (.error error, labels) => (.error error, labels)

/-- What does not look at the table. -/
def attempt (outcome : Except ParseError Value) : Threaded Value :=
  fun labels => (outcome, labels)

def intern (name : String) : Threaded LabelId := fun labels =>
  let (id, labels) := labels.intern name
  (.ok id, labels)

def line? (id : LabelId) : Threaded (Option Nat) :=
  fun labels => (.ok (labels.line? id), labels)

def define (id : LabelId) (line : Nat) : Threaded Unit :=
  fun labels => (.ok (), labels.define id line)

/-- The other forms of operand have no label, so that it does not matter what one would become. -/
def unlabelled (operand : Operand String) : Operand LabelRef :=
  operand.map fun name => ⟨⟨0⟩, name⟩

def readLabelOperand (slot : Slot) (piece : Fragment) : Threaded (Operand LabelRef) := do
  let name := piece.takeWhile isIdent
  let rest := piece.dropWhile isIdent
  if !rest.isEmpty then attempt (reject rest.trim (.textAfter .label))
  else if !slot.label then
    match Register.ofName? name.text with
    | some register => attempt (reject piece (.missingPercent register))
    | none => attempt (reject piece (.formNotAllowed .label))
  else
    let id ← intern name.text
    return .label ⟨id, name.text⟩

def readOperand (slot : Slot) (piece : Fragment) : Threaded (Operand LabelRef) :=
  if '(' ∈ piece.chars then attempt ((readMemoryOperand slot piece).map unlabelled)
  else
    match piece.head? with
    | some '%' => attempt ((readRegisterOperand slot piece).map unlabelled)
    | some '$' => attempt ((readConstantOperand slot piece).map unlabelled)
    | some char =>
      if isIdentStart char then readLabelOperand slot piece
      else attempt (reject piece (.unrecognizedOperand piece.text))
    | none => attempt (reject piece (.unrecognizedOperand piece.text))

def readEach : List (Slot × Fragment) → Threaded (List (Operand LabelRef))
  | [] => return []
  | (slot, piece) :: rest => do
    let operand ← readOperand slot piece
    return operand :: (← readEach rest)

def ofList : List (Operand LabelRef) → Operands LabelRef
  | [] => .nullary
  | [operand] => .unary operand
  | source :: destination :: _ => .binary source destination

/-- The second piece is the one of the destination, and only two operands have one. -/
def readOperands (mnemonic : Mnemonic) (word : Fragment) (pieces : List Fragment) :
    Threaded (Operands LabelRef) :=
  if pieces.length ≠ mnemonic.slots.length then
    let name := String.ofList (word.chars.map Char.toLower)
    attempt (.error ⟨.operandCount name mnemonic.slots.length, piecesSpan word pieces⟩)
  else if pieces[1]?.any (·.head? = some '$') then
    attempt (reject (pieces[1]?.getD word) .constantDestination)
  else do
    let operands ← readEach (mnemonic.slots.zip pieces)
    if 1 < (operands.filter Operand.isMemory).length then
      attempt (reject (pieces[1]?.getD word) .twoMemoryOperands)
    else return ofList operands

def readInstruction (word rest : Fragment) : Threaded (Statement LabelRef) := do
  let pieces ← attempt (operandPieces rest)
  let mnemonic ← attempt (decodeMnemonic word pieces)
  let operands ← readOperands mnemonic word pieces
  return .instruction ⟨mnemonic, operands⟩

def readLabelDefinition (number : Nat) (word rest : Fragment) :
    Threaded (Statement LabelRef) := do
  if !rest.trim.isEmpty then attempt (reject rest.trim (.textAfter .labelDefinition))
  else
    match Register.ofName? word.text with
    | some register => attempt (reject word (.labelNamedAsRegister word.text register))
    | none =>
      let id ← intern word.text
      match ← line? id with
      | some line => attempt (reject word (.duplicateLabel word.text line))
      | none =>
        define id number
        return .label ⟨id, word.text⟩

def readStatement (number : Nat) (body : Fragment) : Threaded (Statement LabelRef) :=
  if !body.head?.any isIdentStart then attempt (reject body .notAStatement)
  else
    let word := body.takeWhile isIdent
    let rest := body.dropWhile isIdent
    if rest.trim.head? = some ':' then readLabelDefinition number word (rest.trim.drop 1)
    else if rest.head?.any (!isBlank ·) then attempt (reject body .notAStatement)
    else readInstruction word rest

def readLine (number : Nat) (text : String) : Threaded Line := do
  let line := Fragment.ofString text
  let body := (line.takeWhile (· ≠ '#')).trim
  let marked := line.dropWhile (· ≠ '#')
  let comment := if marked.isEmpty then none else some (marked.drop 1).text
  if body.isEmpty then
    return ⟨number, if comment.isSome then .comment else .blank, comment, false⟩
  else return ⟨number, ← readStatement number body, comment, false⟩

/-- The next line of a session. The number goes on only if the line is accepted. -/
def parseLine (session : Session) (text : String) : Except ParseError Line × Session :=
  match readLine session.nextLine text session.labels with
  | (.ok line, labels) => (.ok line, ⟨session.nextLine + 1, labels⟩)
  | (.error error, labels) => (.error error, { session with labels })

section Binds

variable {First Second : Type}

theorem bind_apply (first : Threaded First) (next : First → Threaded Second) (labels : LabelTable) :
    (first >>= next) labels =
      match first labels with
      | (.ok value, labels) => next value labels
      | (.error error, labels) => (.error error, labels) :=
  rfl

instance : LawfulMonad Threaded :=
  LawfulMonad.mk' Threaded
    (fun reading => by
      funext labels
      change (reading >>= fun value => pure (id value)) labels = reading labels
      rw [bind_apply]
      obtain ⟨outcome, after⟩ := reading labels
      cases outcome <;> rfl)
    (fun _ _ => rfl)
    (fun first next last => by
      funext labels
      simp only [bind_apply]
      obtain ⟨outcome, after⟩ := first labels
      cases outcome <;> rfl)

@[simp]
theorem attempt_ok (value : First) : attempt (.ok value) = pure value := rfl

theorem attempt_error_bind (error : ParseError) (next : First → Threaded Second) :
    attempt (.error error) >>= next = attempt (.error error) := rfl

theorem attempt_bind (first : Except ParseError First) (next : First → Except ParseError Second) :
    attempt (first >>= next) = attempt first >>= fun value => attempt (next value) := by
  cases first <;> rfl

end Binds

section Forms

variable {slot : Slot} {piece : Fragment} {operand : Operand String}

theorem exists_of_readRegisterOperand (read : readRegisterOperand slot piece = .ok operand) :
    ∃ register, operand = .register register := by
  obtain ⟨⟨register, rest⟩, _, read⟩ := exists_of_bind_ok read
  simp only at read
  split at read
  · cases read
  · split at read
    · cases read
    · split at read
      · cases read
      · exact ⟨register, (Except.ok.inj read).symm⟩

theorem exists_of_readConstantOperand (read : readConstantOperand slot piece = .ok operand) :
    ∃ constant, operand = .immediate constant := by
  unfold readConstantOperand at read
  split at read
  · cases read
  · split at read
    · exact ⟨_, (Except.ok.inj read).symm⟩
    · cases read

theorem exists_of_readMemoryOperand (read : readMemoryOperand slot piece = .ok operand) :
    ∃ reference, operand = .memory reference := by
  unfold readMemoryOperand at read
  split at read
  · cases read
  · split at read
    · cases read
    · simp only at read
      split at read
      · cases read
      · split at read
        · cases read
        · split at read
          · obtain ⟨reference, _, read⟩ := exists_of_bind_ok read
            exact ⟨reference, (Except.ok.inj read).symm⟩
          · split at read
            · cases read
            · obtain ⟨reference, _, read⟩ := exists_of_bind_ok read
              exact ⟨reference, (Except.ok.inj read).symm⟩

end Forms

/-- Looks the label name of an operand up, if it is one. -/
def resolveOperand (operand : Operand String) : Threaded (Operand LabelRef) := fun labels =>
  let (operand, labels) := Source.resolveOperand labels operand
  (.ok operand, labels)

def resolveOperands (operands : Operands String) : Threaded (Operands LabelRef) := fun labels =>
  let (operands, labels) := Source.resolveOperands labels operands
  (.ok operands, labels)

/-- Looks the label names of a statement up that is on its own already. -/
def resolve (number : Nat) (keyword : Span) (statement : Statement String) :
    Threaded (Statement LabelRef) :=
  fun labels => Session.resolve ⟨number, labels⟩ keyword statement

theorem readLabelOperand_eq (slot : Slot) (piece : Fragment) :
    readLabelOperand slot piece = attempt (Source.readLabelOperand slot piece) >>= resolveOperand := by
  simp only [readLabelOperand, Source.readLabelOperand]
  split
  · rfl
  · cases slot.label with
    | true => rfl
    | false => cases Register.ofName? (piece.takeWhile isIdent).text <;> rfl

/-- An operand of another form than a label is not looked up. -/
theorem attempt_map_unlabelled {read : Except ParseError (Operand String)}
    (unnamed : ∀ name, read ≠ .ok (.label name)) :
    attempt (read.map unlabelled) = attempt read >>= resolveOperand := by
  cases read with
  | error error => rfl
  | ok operand =>
    cases operand with
    | label name => exact absurd rfl (unnamed name)
    | immediate _ | register _ | memory _ => rfl

theorem readOperand_eq (slot : Slot) (piece : Fragment) :
    readOperand slot piece = attempt (Source.readOperand slot piece) >>= resolveOperand := by
  fun_cases Source.readOperand slot piece with
  | case1 opens =>
    rw [readOperand, if_pos opens]
    refine attempt_map_unlabelled fun name read => ?_
    obtain ⟨reference, same⟩ := exists_of_readMemoryOperand read
    cases same
  | case2 closed head =>
    rw [readOperand, if_neg closed, head]
    refine attempt_map_unlabelled fun name read => ?_
    obtain ⟨register, same⟩ := exists_of_readRegisterOperand read
    cases same
  | case3 closed head =>
    rw [readOperand, if_neg closed, head]
    refine attempt_map_unlabelled fun name read => ?_
    obtain ⟨constant, same⟩ := exists_of_readConstantOperand read
    cases same
  | case4 closed char percent dollar head start =>
    have label : readOperand slot piece = readLabelOperand slot piece := by
      simp [readOperand, closed, head, start]
    rw [label, readLabelOperand_eq]
  | case5 closed char percent dollar head start =>
    simp [readOperand, closed, head, start, reject, attempt_error_bind]
  | case6 closed head => rw [readOperand, if_neg closed, head]; rfl

/-- Where no label is admitted the table is not looked at. -/
theorem readOperand_unlabelled {slot : Slot} (noLabel : slot.label = false) (piece : Fragment) :
    readOperand slot piece = attempt ((Source.readOperand slot piece).map unlabelled) := by
  rw [readOperand_eq, attempt_map_unlabelled]
  intro name read
  have admitted := (readOperand_admits read).1
  rw [noLabel] at admitted
  cases admitted

/-- A label is an operand of its own. -/
theorem slots_cases (mnemonic : Mnemonic) :
    mnemonic.slots = [] ∨ (∃ slot, mnemonic.slots = [slot]) ∨
      ∃ sourceSlot slot, mnemonic.slots = [sourceSlot, slot] ∧ sourceSlot.label = false ∧
        slot.label = false := by
  obtain ⟨opcode, size, sourceSize⟩ := mnemonic
  cases opcode
  all_goals first
    | exact .inl rfl
    | exact .inr (.inl ⟨_, rfl⟩)
    | exact .inr (.inr ⟨_, _, rfl, rfl, rfl⟩)

/-- An operand that was read where no label is admitted resolves to itself. -/
theorem resolveOperand_unlabelled {slot : Slot} {piece : Fragment} {operand : Operand String}
    (noLabel : slot.label = false) (read : Source.readOperand slot piece = .ok operand) :
    resolveOperand operand = pure (unlabelled operand) := by
  have admitted := readOperand_admits read
  cases operand with
  | label name =>
    rw [Slot.Admits, noLabel] at admitted
    cases admitted.1
  | immediate _ | register _ | memory _ => rfl

@[simp]
theorem isMemory_unlabelled (operand : Operand String) :
    (unlabelled operand).isMemory = operand.isMemory := by
  cases operand <;> rfl

/-- Of two operands one at most is in memory. -/
theorem readPair_eq {sourceSlot slot : Slot} (noSource : sourceSlot.label = false)
    (noLabel : slot.label = false) (sourcePiece piece : Fragment) :
    (do
      let operands ← readEach [(sourceSlot, sourcePiece), (slot, piece)]
      if 1 < (operands.filter Operand.isMemory).length then
        attempt (reject piece .twoMemoryOperands)
      else return ofList operands) =
    (attempt do
      let source ← Source.readOperand sourceSlot sourcePiece
      let destination ← Source.readOperand slot piece
      if source.isMemory && destination.isMemory then reject piece .twoMemoryOperands
      else return .binary source destination) >>= resolveOperands := by
  simp only [readEach, readOperand_unlabelled noSource, readOperand_unlabelled noLabel, bind_assoc,
    pure_bind]
  cases sourceRead : Source.readOperand sourceSlot sourcePiece with
  | error error => rfl
  | ok source =>
    cases read : Source.readOperand slot piece with
    | error error => rfl
    | ok destination =>
      have first := resolveOperand_unlabelled noSource sourceRead
      have second := resolveOperand_unlabelled noLabel read
      have many : (1 < ([unlabelled source, unlabelled destination].filter Operand.isMemory).length) ↔
          (source.isMemory && destination.isMemory) = true := by
        cases sourceMemory : source.isMemory <;> cases memory : destination.isMemory <;>
          simp [sourceMemory, memory]
      change (if 1 < ([unlabelled source, unlabelled destination].filter Operand.isMemory).length then
          attempt (reject piece .twoMemoryOperands)
        else pure (.binary (unlabelled source) (unlabelled destination))) =
        attempt (if source.isMemory && destination.isMemory then reject piece .twoMemoryOperands
          else .ok (.binary source destination)) >>= resolveOperands
      by_cases both : (source.isMemory && destination.isMemory) = true
      · rw [if_pos (many.mpr both), if_pos both]
        rfl
      · have pair : resolveOperands (.binary source destination) =
            (do return .binary (← resolveOperand source) (← resolveOperand destination)) := rfl
        rw [if_neg (mt many.mp both), if_neg both, attempt_ok, pure_bind, pair, first, second]
        rfl

theorem readOperands_eq (mnemonic : Mnemonic) (word : Fragment) (pieces : List Fragment) :
    readOperands mnemonic word pieces =
      attempt (Source.readOperands mnemonic word pieces) >>= resolveOperands := by
  have shape := slots_cases mnemonic
  unfold readOperands Source.readOperands
  generalize mnemonic.slots = slots at shape
  obtain rfl | ⟨slot, rfl⟩ | ⟨sourceSlot, slot, rfl, noSource, noLabel⟩ := shape
  · cases pieces <;> rfl
  · match pieces with
    | [] | _ :: _ :: _ => rfl
    | [piece] =>
      have alone : (do return ofList (← readEach [(slot, piece)])) =
          attempt (do return .unary (← Source.readOperand slot piece)) >>= resolveOperands := by
        simp only [readEach, bind_assoc, pure_bind, readOperand_eq]
        cases Source.readOperand slot piece <;> rfl
      have few (operand : Operand LabelRef) : ¬ 1 < ([operand].filter Operand.isMemory).length :=
        not_lt.mpr (List.length_filter_le Operand.isMemory [operand])
      simpa [readEach, few] using alone
  · match pieces with
    | [] | [_] | _ :: _ :: _ :: _ => rfl
    | [sourcePiece, piece] =>
      have pair := readPair_eq noSource noLabel sourcePiece piece
      by_cases dollar : piece.head? = some '$'
      · simp [dollar, reject, attempt_error_bind]
      · simpa [dollar] using pair

theorem readInstruction_eq (number : Nat) (keyword : Span) (word rest : Fragment) :
    readInstruction word rest =
      attempt (Source.readInstruction word rest) >>= resolve number keyword := by
  rw [readInstruction, Source.readInstruction]
  simp only [attempt_bind, bind_assoc, readOperands_eq]
  rfl

theorem readLabelDefinition_eq (number : Nat) (word rest : Fragment) :
    readLabelDefinition number word rest =
      attempt (Source.readLabelDefinition word rest) >>= resolve number word.span := by
  rw [readLabelDefinition, Source.readLabelDefinition]
  split
  · rfl
  · cases Register.ofName? word.text with
    | some register => rfl
    | none =>
      funext labels
      rw [attempt_ok, pure_bind, resolve, Session.resolve]
      simp only [bind_apply, intern, line?]
      cases (labels.intern word.text).2.line? (labels.intern word.text).1 <;> rfl

theorem readStatement_eq (number : Nat) (body : Fragment) :
    readStatement number body =
      attempt (Source.readStatement body) >>= resolve number (body.takeWhile isIdent).span := by
  simp only [readStatement, Source.readStatement]
  split
  · rfl
  · split
    · exact readLabelDefinition_eq number _ _
    · split
      · rfl
      · exact readInstruction_eq number _ _ _

theorem readLine_eq (number : Nat) (text : String) :
    readLine number text = (do
      let draft ← attempt (readDraft text)
      return ⟨number, ← resolve number draft.keyword draft.statement, draft.comment, false⟩) := by
  simp only [readLine, readDraft]
  split
  · split <;> rfl
  · simp only [readStatement_eq, attempt_bind, bind_assoc]
    rfl

/-- One pass with the table at hand reads every line as two passes do, and leaves the same session. -/
theorem parseLine_eq (session : Session) (text : String) :
    parseLine session text = session.parseLine text := by
  rw [parseLine, Session.parseLine, readLine_eq]
  cases readDraft text with
  | error error => rfl
  | ok draft =>
    rw [attempt_ok, pure_bind]
    simp only [bind_apply, resolve]
    obtain ⟨outcome, labels⟩ := session.resolve draft.keyword draft.statement
    cases outcome <;> rfl

end Threaded

end AsmLab.Source
