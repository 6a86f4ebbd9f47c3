import AsmLab.Source.Constant
import AsmLab.Suggestion
/-!
Reading one operand in a place that accepts some forms of operand. The form is told by the first
character, or by a parenthesis anywhere.
-/
namespace AsmLab.Source

/-- A register at the start of a fragment, and what follows its name. -/
def readRegister (piece : Fragment) : Except ParseError (Register × Fragment) :=
  let name := (piece.drop 1).takeWhile isIdent
  if name.isEmpty then .error ⟨.missingRegisterName, ⟨piece.start, piece.start + 1⟩⟩
  else
    match Register.ofName? name.text with
    | some register => .ok (register, (piece.drop 1).dropWhile isIdent)
    | none =>
      .error ⟨.unknownRegister name.text (Suggestion.register? name.text), ⟨piece.start, name.stop⟩⟩

def readRegisterOperand (slot : Slot) (piece : Fragment) :
    Except ParseError (Operand String) := do
  let (register, rest) ← readRegister piece
  if !rest.isEmpty then reject rest.trim (.textAfter .register)
  else if !slot.register then reject piece (.formNotAllowed .register)
  else if register.size ≠ slot.size then reject piece (.registerWidth register slot.size)
  else return .register register

def readLabelOperand (slot : Slot) (piece : Fragment) : Except ParseError (Operand String) :=
  let name := piece.takeWhile isIdent
  let rest := piece.dropWhile isIdent
  if !rest.isEmpty then reject rest.trim (.textAfter .label)
  else if slot.label then .ok (.label name.text)
  else
    match Register.ofName? name.text with
    | some register => reject piece (.missingPercent register)
    | none => reject piece (.formNotAllowed .label)

def readConstantOperand (slot : Slot) (piece : Fragment) : Except ParseError (Operand String) :=
  if !slot.constant then reject piece (.formNotAllowed .constant)
  else
    match readImmediate slot.size.bits piece.chars with
    | .ok constant => .ok (.immediate constant)
    | .error cause => reject piece cause

/-- A 64-bit register that fills a part of an address. A part without one is reported where it stands,
or at `context` if there is nothing to point at. -/
def readAddressRegister (role : AddressRole) (context part : Fragment) :
    Except ParseError Register := do
  if part.head? ≠ some '%' then
    reject (if part.isEmpty then context else part) (.missingAddressRegister role)
  else
    let (register, rest) ← readRegister part
    if !rest.isEmpty then reject rest.trim (.textAfter .register)
    else if register.size ≠ .quad then reject part (.narrowAddressRegister role register)
    else return register

def readScale (part : Fragment) : Except ParseError Nat :=
  match part.chars with
  | ['1'] => .ok 1
  | ['2'] => .ok 2
  | ['4'] => .ok 4
  | ['8'] => .ok 8
  | _ => reject part .invalidScale

/-- The parts between the parentheses of an address. `outer` is the parentheses and what they hold,
`piece` the whole operand. -/
def readAddress (piece outer : Fragment) (displacement : BitVec 64) (parts : List Fragment) :
    Except ParseError MemoryRef := do
  match parts with
  | [] => reject outer (.missingAddressRegister .base)
  | [base] =>
    let base ← readAddressRegister .base outer base
    return ⟨displacement, base, none, 1⟩
  | [base, index] =>
    let base ← readAddressRegister .base outer base
    let index ← readAddressRegister .index index index
    return ⟨displacement, base, some index, 1⟩
  | [base, index, scale] =>
    let base ← readAddressRegister .base outer base
    let index ← readAddressRegister .index index index
    let scale ← readScale scale
    return ⟨displacement, base, some index, scale⟩
  | _ => reject piece .tooManyAddressParts

/-- An address reaches from the first opening parenthesis to the last closing one. -/
def readMemoryOperand (slot : Slot) (piece : Fragment) : Except ParseError (Operand String) := do
  if !slot.memory then reject piece (.formNotAllowed .memory)
  else
    match piece.splitLast? ')' with
    | none => reject piece .unclosedParenthesis
    | some (front, trailing) =>
      let outer := front.dropWhile (· ≠ '(')
      if outer.isEmpty then reject piece .unclosedParenthesis
      else if !trailing.trim.isEmpty then reject trailing.trim (.textAfter .memoryOperand)
      else
        let spelled := (front.takeWhile (· ≠ '(')).trim
        let closed : Fragment := ⟨outer.start, outer.chars ++ [')']⟩
        let parts := (outer.drop 1).splitCommas.map Fragment.trim
        if spelled.isEmpty then
          return .memory (← readAddress piece closed 0 parts)
        else
          match readDisplacement? spelled.chars with
          | none => reject spelled .invalidDisplacement
          | some displacement => return .memory (← readAddress piece closed displacement parts)

/-- An operand. The piece is not empty and has no blanks at its ends. -/
def readOperand (slot : Slot) (piece : Fragment) : Except ParseError (Operand String) :=
  if '(' ∈ piece.chars then readMemoryOperand slot piece
  else
    match piece.head? with
    | some '%' => readRegisterOperand slot piece
    | some '$' => readConstantOperand slot piece
    | some char =>
      if isIdentStart char then readLabelOperand slot piece
      else reject piece (.unrecognizedOperand piece.text)
    | none => reject piece (.unrecognizedOperand piece.text)

end AsmLab.Source
