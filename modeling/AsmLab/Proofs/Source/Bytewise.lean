import AsmLab.Proofs.Source.EncodedText
import AsmLab.Source.Session

/-! Reading a line by its bytes. The parts of the line are ranges of byte offsets: scans look at one
byte after the other, and text is cut out where a range says. A byte beyond the end of the line and a
cut inside a character are crashes. -/
namespace AsmLab.Source

/-- How reading ends early. The span of an error counts bytes here. -/
inductive Halt where
  | crashed
  | rejected (error : ParseError)
  deriving DecidableEq, Repr

def Span.isEmpty (range : Span) : Bool :=
  range.stop ≤ range.start

namespace Bytewise

section Scanning

variable (text : String)

def byteAt (index : Nat) : Except Halt UInt8 :=
  match (bytes text)[index]? with
  | some byte => .ok byte
  | none => .error .crashed

/-- The first byte of a range that is not empty. -/
def first? (range : Span) : Except Halt (Option UInt8) := do
  if range.isEmpty then return none else return some (← byteAt text range.start)

/-- The characters of a range, which has to start and stop between characters. -/
def slice (range : Span) : Except Halt (List Char) :=
  match columnAt? text.toList range.start, columnAt? text.toList range.stop with
  | some first, some last =>
    if first ≤ last then .ok ((text.toList.take last).drop first) else .error .crashed
  | _, _ => .error .crashed

def fail {Accepted : Type} (range : Span) (cause : ErrorCause) : Except Halt Accepted :=
  .error (.rejected ⟨cause, range⟩)

/-- Where the accepted bytes from a position on end. -/
def scan (accepts : Char → Bool) (position stop : Nat) : Except Halt Nat :=
  if position < stop then do
    if (ascii? (← byteAt text position)).any accepts then scan accepts (position + 1) stop
    else return position
  else return position
termination_by stop - position

/-- Where the blanks in front of a position start. -/
def scanBack (start position : Nat) : Except Halt Nat :=
  if start < position then do
    if (ascii? (← byteAt text (position - 1))).any isBlank then scanBack start (position - 1)
    else return position
  else return position

def trim (range : Span) : Except Halt Span := do
  let start ← scan text isBlank range.start range.stop
  let stop ← scanBack text start range.stop
  return ⟨start, stop⟩

/-- The ranges between commas outside of brackets. The current one starts at `first`. -/
def cut (nesting : Char → Int) (depth : Int) (first position stop : Nat) :
    Except Halt (List Span) :=
  if position < stop then do
    let char := ascii? (← byteAt text position)
    if char = some ',' ∧ depth = 0 then
      return ⟨first, position⟩ :: (← cut nesting depth (position + 1) (position + 1) stop)
    else cut nesting (depth + char.elim 0 nesting) first (position + 1) stop
  else return [⟨first, stop⟩]
termination_by stop - position

end Scanning

/-- Offset of the first occurrence of a character. -/
def find? (wanted : Char) : List Char → Option Nat
  | [] => none
  | char :: rest =>
    if char = wanted then some 0 else (find? wanted rest).map (char.utf8Size + ·)

/-- Offset of the last occurrence of a character. -/
def findLast? (wanted : Char) : List Char → Option Nat
  | [] => none
  | char :: rest =>
    match findLast? wanted rest with
    | some offset => some (char.utf8Size + offset)
    | none => if char = wanted then some 0 else none

variable (text : String)

def readRegister (range : Span) : Except Halt (Register × Nat) := do
  let stop ← scan text isIdent (range.start + 1) range.stop
  let name ← slice text ⟨range.start + 1, stop⟩
  if name.isEmpty then fail ⟨range.start, range.start + 1⟩ .missingRegisterName
  else
    let name := String.ofList name
    match Register.ofName? name with
    | some register => return (register, stop)
    | none => fail ⟨range.start, stop⟩ (.unknownRegister name (Suggestion.register? name))

def readRegisterOperand (slot : Slot) (range : Span) : Except Halt (Operand String) := do
  let (register, stop) ← readRegister text range
  if stop < range.stop then fail (← trim text ⟨stop, range.stop⟩) (.textAfter .register)
  else if !slot.register then fail range (.formNotAllowed .register)
  else if register.size ≠ slot.size then fail range (.registerWidth register slot.size)
  else return .register register

def readLabelOperand (slot : Slot) (range : Span) : Except Halt (Operand String) := do
  let stop ← scan text isIdent range.start range.stop
  if stop < range.stop then fail (← trim text ⟨stop, range.stop⟩) (.textAfter .label)
  else
    let name := String.ofList (← slice text ⟨range.start, stop⟩)
    if slot.label then return .label name
    else
      match Register.ofName? name with
      | some register => fail range (.missingPercent register)
      | none => fail range (.formNotAllowed .label)

/-- What follows the dollar sign is cut out on its own. -/
def readConstantOperand (slot : Slot) (range : Span) : Except Halt (Operand String) := do
  let spelled ← slice text range
  if !slot.constant then fail range (.formNotAllowed .constant)
  else
    let _ ← slice text ⟨range.start + 1, range.stop⟩
    match readImmediate slot.size.bits spelled with
    | .ok constant => return .immediate constant
    | .error cause => fail range cause

def readAddressRegister (role : AddressRole) (context part : Span) : Except Halt Register := do
  if part.isEmpty then fail context (.missingAddressRegister role)
  else if ascii? (← byteAt text part.start) ≠ some '%' then
    fail part (.missingAddressRegister role)
  else
    let (register, stop) ← readRegister text part
    if stop < part.stop then fail (← trim text ⟨stop, part.stop⟩) (.textAfter .register)
    else if register.size ≠ .quad then fail part (.narrowAddressRegister role register)
    else return register

def readScale (part : Span) : Except Halt Nat := do
  match ← slice text part with
  | ['1'] => return 1
  | ['2'] => return 2
  | ['4'] => return 4
  | ['8'] => return 8
  | _ => fail part .invalidScale

/-- The parts of an address between its parentheses. -/
def addressParts (opening closing : Nat) : Except Halt (List Span) := do
  (← cut text (fun _ => 0) 0 (opening + 1) (opening + 1) closing).mapM (trim text)

def readAddress (range outer : Span) (displacement : BitVec 64) (parts : List Span) :
    Except Halt MemoryRef := do
  match parts with
  | [] => fail outer (.missingAddressRegister .base)
  | [base] =>
    let base ← readAddressRegister text .base outer base
    return ⟨displacement, base, none, 1⟩
  | [base, index] =>
    let base ← readAddressRegister text .base outer base
    let index ← readAddressRegister text .index index index
    return ⟨displacement, base, some index, 1⟩
  | [base, index, scale] =>
    let base ← readAddressRegister text .base outer base
    let index ← readAddressRegister text .index index index
    let scale ← readScale text scale
    return ⟨displacement, base, some index, scale⟩
  | _ => fail range .tooManyAddressParts

def readMemoryOperand (slot : Slot) (range : Span) : Except Halt (Operand String) := do
  let spelled ← slice text range
  if !slot.memory then fail range (.formNotAllowed .memory)
  else
    let opening := range.start + (find? '(' spelled).getD 0
    match findLast? ')' spelled with
    | none => fail range .unclosedParenthesis
    | some offset =>
      let closing := range.start + offset
      if closing < opening then fail range .unclosedParenthesis
      else
        let trailing ← trim text ⟨closing + 1, range.stop⟩
        if !trailing.isEmpty then fail trailing (.textAfter .memoryOperand)
        else
          let before ← trim text ⟨range.start, opening⟩
          let outer : Span := ⟨opening, closing + 1⟩
          if before.isEmpty then
            let parts ← addressParts text opening closing
            return .memory (← readAddress text range outer 0 parts)
          else
            match readDisplacement? (← slice text before) with
            | none => fail before .invalidDisplacement
            | some displacement =>
              let parts ← addressParts text opening closing
              return .memory (← readAddress text range outer displacement parts)

def readOperand (slot : Slot) (range : Span) : Except Halt (Operand String) := do
  let spelled ← slice text range
  let first := ascii? (← byteAt text range.start)
  if '(' ∈ spelled then readMemoryOperand text slot range
  else if first = some '%' then readRegisterOperand text slot range
  else if first.any isIdentStart then readLabelOperand text slot range
  else if first = some '$' then readConstantOperand text slot range
  else fail range (.unrecognizedOperand (String.ofList spelled))

/-- An empty range is reported at the comma behind it, the last one at the end of the operands. -/
def trimPieces : List Span → Except Halt (List Span)
  | [] => return []
  | [last] => do
    let piece ← trim text last
    if piece.isEmpty then fail ⟨last.stop - 1, last.stop - 1 + 1⟩ .missingOperand
    else return [piece]
  | range :: rest => do
    let piece ← trim text range
    if piece.isEmpty then fail ⟨range.stop, range.stop + 1⟩ .missingOperand
    else return piece :: (← trimPieces rest)

def operandPieces (range : Span) : Except Halt (List Span) := do
  let rest ← trim text range
  if rest.isEmpty then return []
  else trimPieces text (← cut text Fragment.parenthesisNesting 0 rest.start rest.start rest.stop)

def registerHint : List Span → Except Halt (Option Size)
  | [] => return none
  | range :: rest => do
    match ← slice text range with
    | '%' :: name =>
      match Register.ofName? (String.ofList name) with
      | some register => return some register.size
      | none => registerHint rest
    | _ => registerHint rest

def decodeMnemonic (word : Span) (lower : List Char) (pieces : List Span) :
    Except Halt Mnemonic := do
  match Mnemonic.decode lower with
  | .ok mnemonic => return mnemonic
  | .error reason =>
    let name := String.ofList lower
    let suggestion := Suggestion.mnemonic? name (← registerHint text pieces)
    fail word (.badMnemonic reason (suggestion.filter fun mnemonic => mnemonic.text ≠ name))

def piecesSpan (word : Span) : List Span → Span
  | [] => word
  | first :: rest => ⟨first.start, (rest.getLast?.getD first).stop⟩

def readOperands (mnemonic : Mnemonic) (word : Span) (lower : List Char) (pieces : List Span) :
    Except Halt (Operands String) :=
  match mnemonic.slots, pieces with
  | [], [] => return .nullary
  | [slot], [piece] => do return .unary (← readOperand text slot piece)
  | [sourceSlot, slot], [sourcePiece, piece] => do
    if ascii? (← byteAt text piece.start) = some '$' then fail piece .constantDestination
    else
      let source ← readOperand text sourceSlot sourcePiece
      let destination ← readOperand text slot piece
      if source.isMemory && destination.isMemory then fail piece .twoMemoryOperands
      else return .binary source destination
  | slots, pieces =>
    fail (piecesSpan word pieces) (.operandCount (String.ofList lower) slots.length)

def readInstruction (word rest : Span) : Except Halt (Statement String) := do
  let lower := (← slice text word).map Char.toLower
  let pieces ← operandPieces text rest
  let mnemonic ← decodeMnemonic text word lower pieces
  let operands ← readOperands text mnemonic word lower pieces
  return .instruction ⟨mnemonic, operands⟩

def readLabelDefinition (word rest : Span) : Except Halt (Statement String) := do
  let rest ← trim text rest
  if !rest.isEmpty then fail rest (.textAfter .labelDefinition)
  else
    let name := String.ofList (← slice text word)
    match Register.ofName? name with
    | some register => fail word (.labelNamedAsRegister name register)
    | none => return .label name

def readStatement (body : Span) : Except Halt (Statement String) := do
  if !(ascii? (← byteAt text body.start)).any isIdentStart then fail body .notAStatement
  else
    let stop ← scan text isIdent body.start body.stop
    let rest ← trim text ⟨stop, body.stop⟩
    if (← first? text rest).any fun byte => ascii? byte = some ':' then
      readLabelDefinition text ⟨body.start, stop⟩ ⟨rest.start + 1, body.stop⟩
    else if (← first? text ⟨stop, body.stop⟩).any fun byte => !(ascii? byte).any isBlank then
      fail body .notAStatement
    else readInstruction text ⟨body.start, stop⟩ ⟨stop, body.stop⟩

/-- The part in front of the number sign, and what follows the sign. -/
def splitComment : Except Halt (Span × Option String) := do
  match find? '#' text.toList with
  | none => return (⟨0, text.utf8ByteSize⟩, none)
  | some offset =>
    return (⟨0, offset⟩, some (String.ofList (← slice text ⟨offset + 1, text.utf8ByteSize⟩)))

def readDraft : Except Halt Draft := do
  let (front, comment) ← splitComment text
  let body ← trim text front
  let keyword : Span := ⟨body.start, ← scan text isIdent body.start body.stop⟩
  if body.isEmpty then
    return ⟨if comment.isSome then .comment else .blank, comment, keyword⟩
  else return ⟨← readStatement text body, comment, keyword⟩

/-- Reads a line as a session does, but by its bytes. -/
def parseLine (session : Session) (text : String) : Except Halt Line × Session :=
  match readDraft text with
  | .error halt => (.error halt, session)
  | .ok draft =>
    match session.resolve draft.keyword draft.statement with
    | (.error error, labels) => (.error (.rejected error), { session with labels })
    | (.ok statement, labels) =>
      (.ok ⟨session.nextLine, statement, draft.comment, false⟩, ⟨session.nextLine + 1, labels⟩)

/-- An error that counts characters. An offset inside a character would be kept as it is. -/
def toColumns (text : String) (error : ParseError) : ParseError :=
  { error with
    span :=
      ⟨(columnAt? text.toList error.span.start).getD error.span.start,
        (columnAt? text.toList error.span.stop).getD error.span.stop⟩ }

end Bytewise

end AsmLab.Source
