import AsmLab.Isa.Instruction
import AsmLab.Source.Operand
/-!
What a line says on its own, before its label names are looked up. A draft depends on the text of its
line only.
-/
namespace AsmLab.Source

structure Draft where
  statement : Statement String
  /-- What follows the number sign, if there is one. -/
  comment : Option String
  /-- Columns of the word that the statement starts with. -/
  keyword : Span
  deriving DecidableEq, Repr

/-- The operand pieces of an instruction, none of them empty. -/
def trimPieces : List Fragment → Except ParseError (List Fragment)
  | [] => .ok []
  | [last] =>
    if last.trim.isEmpty then .error ⟨.missingOperand, ⟨last.stop - 1, last.stop⟩⟩
    else .ok [last.trim]
  | piece :: rest =>
    if piece.trim.isEmpty then .error ⟨.missingOperand, ⟨piece.stop, piece.stop + 1⟩⟩
    else do return piece.trim :: (← trimPieces rest)

def operandPieces (rest : Fragment) : Except ParseError (List Fragment) :=
  if rest.trim.isEmpty then .ok [] else trimPieces rest.trim.splitOuterCommas

/-- Width of the first operand that is a register. -/
def registerHint (pieces : List Fragment) : Option Size :=
  pieces.findSome? fun piece =>
    (piece.stripStart? ['%']).bind fun name => (Register.ofName? name.text).map Register.size

def decodeMnemonic (word : Fragment) (pieces : List Fragment) : Except ParseError Mnemonic :=
  let lower := word.chars.map Char.toLower
  match Mnemonic.decode lower with
  | .ok mnemonic => .ok mnemonic
  | .error reason =>
    let name := String.ofList lower
    let suggestion := Suggestion.mnemonic? name (registerHint pieces)
    reject word (.badMnemonic reason (suggestion.filter fun mnemonic => mnemonic.text ≠ name))

/-- From the start of the first piece to the end of the last, or the word if there is no piece. -/
def piecesSpan (word : Fragment) : List Fragment → Span
  | [] => word.span
  | first :: rest => ⟨first.start, (rest.getLast?.getD first).stop⟩

def readOperands (mnemonic : Mnemonic) (word : Fragment) (pieces : List Fragment) :
    Except ParseError (Operands String) :=
  match mnemonic.slots, pieces with
  | [], [] => .ok .nullary
  | [slot], [piece] => do return .unary (← readOperand slot piece)
  | [sourceSlot, slot], [sourcePiece, piece] => do
    if piece.head? = some '$' then reject piece .constantDestination
    else
      let source ← readOperand sourceSlot sourcePiece
      let destination ← readOperand slot piece
      if source.isMemory && destination.isMemory then reject piece .twoMemoryOperands
      else return .binary source destination
  | slots, pieces =>
    let name := String.ofList (word.chars.map Char.toLower)
    .error ⟨.operandCount name slots.length, piecesSpan word pieces⟩

def readInstruction (word rest : Fragment) : Except ParseError (Statement String) := do
  let pieces ← operandPieces rest
  let mnemonic ← decodeMnemonic word pieces
  let operands ← readOperands mnemonic word pieces
  return .instruction ⟨mnemonic, operands⟩

def readLabelDefinition (word rest : Fragment) : Except ParseError (Statement String) :=
  if !rest.trim.isEmpty then reject rest.trim (.textAfter .labelDefinition)
  else
    match Register.ofName? word.text with
    | some register => reject word (.labelNamedAsRegister word.text register)
    | none => .ok (.label word.text)

/-- The part of a line before its comment. It is not empty and has no blanks at its ends. -/
def readStatement (body : Fragment) : Except ParseError (Statement String) :=
  if !body.head?.any isIdentStart then reject body .notAStatement
  else
    let word := body.takeWhile isIdent
    let rest := body.dropWhile isIdent
    if rest.trim.head? = some ':' then readLabelDefinition word (rest.trim.drop 1)
    else if rest.head?.any (!isBlank ·) then reject body .notAStatement
    else readInstruction word rest

def readDraft (text : String) : Except ParseError Draft := do
  let line := Fragment.ofString text
  let body := (line.takeWhile (· ≠ '#')).trim
  let marked := line.dropWhile (· ≠ '#')
  let comment := if marked.isEmpty then none else some (marked.drop 1).text
  let keyword := (body.takeWhile isIdent).span
  if body.isEmpty then return ⟨if comment.isSome then .comment else .blank, comment, keyword⟩
  else return ⟨← readStatement body, comment, keyword⟩

end AsmLab.Source
