import AsmLab.Isa.Mnemonic
import AsmLab.Machine.Register
import AsmLab.Numeral
import AsmLab.Source.Fragment
/-!
Why a line is rejected. The cause carries what its message quotes; the kind is the class that callers
tell apart.
-/
namespace AsmLab.Source

inductive ErrorKind where
  | nonsense
  | invalidMnemonic
  | invalidSuffix
  | invalidRegister
  | invalidLabel
  | duplicateLabel
  | operandMismatch
  | constantTooLarge
  | invalidConstant
  | invalidMemoryOperand
  | wrongOperandCount
  | destinationIsConstant
  | trailingGarbage
  deriving DecidableEq, Repr

/-- The form of operand after which text was left. -/
inductive Leftover where
  | labelDefinition
  | register
  | label
  | memoryOperand
  deriving DecidableEq, Repr

def Leftover.name : Leftover → String
  | .labelDefinition => "label definition"
  | .register => "register"
  | .label => "label"
  | .memoryOperand => "memory operand"

/-- The forms that an operand place may refuse. -/
inductive OperandForm where
  | constant
  | register
  | memory
  | label
  deriving DecidableEq, Repr

def OperandForm.name : OperandForm → String
  | .constant => "a constant"
  | .register => "a register"
  | .memory => "a memory reference"
  | .label => "a label"

/-- What a register does in an address. -/
inductive AddressRole where
  | base
  | index
  deriving DecidableEq, Repr

def AddressRole.name : AddressRole → String
  | .base => "base"
  | .index => "index"

inductive ErrorCause where
  | notAStatement
  | missingOperand
  | unrecognizedOperand (text : String)
  | textAfter (form : Leftover)
  | labelNamedAsRegister (name : String) (register : Register)
  | duplicateLabel (name : String) (line : Nat)
  | badMnemonic (reason : Mnemonic.Error) (suggestion : Option Mnemonic)
  | operandCount (mnemonic : String) (expected : Nat)
  | constantDestination
  | twoMemoryOperands
  | missingRegisterName
  | unknownRegister (name : String) (suggestion : Option Register)
  | formNotAllowed (form : OperandForm)
  | missingPercent (register : Register)
  | registerWidth (register : Register) (expected : Size)
  | malformedConstant (text : String)
  | constantTooWide (text : String) (needed available : Nat)
  | constantOutOfRange (text : String) (available : Nat)
  | unclosedParenthesis
  | invalidDisplacement
  | tooManyAddressParts
  | missingAddressRegister (role : AddressRole)
  | narrowAddressRegister (role : AddressRole) (register : Register)
  | invalidScale
  deriving DecidableEq, Repr

namespace ErrorCause

def kind : ErrorCause → ErrorKind
  | notAStatement | missingOperand | unrecognizedOperand _ => .nonsense
  | textAfter _ => .trailingGarbage
  | labelNamedAsRegister .. => .invalidLabel
  | duplicateLabel .. => .duplicateLabel
  | badMnemonic (.unknown _) _ => .invalidMnemonic
  | badMnemonic .. => .invalidSuffix
  | operandCount .. => .wrongOperandCount
  | constantDestination => .destinationIsConstant
  | twoMemoryOperands | formNotAllowed _ | missingPercent _ | registerWidth .. => .operandMismatch
  | missingRegisterName | unknownRegister .. => .invalidRegister
  | malformedConstant _ => .invalidConstant
  | constantTooWide .. | constantOutOfRange .. => .constantTooLarge
  | unclosedParenthesis | invalidDisplacement | tooManyAddressParts | missingAddressRegister _
  | narrowAddressRegister .. | invalidScale => .invalidMemoryOperand

def didYouMean (suggestion : Option String) : String :=
  suggestion.elim "" fun text => ". Did you mean " ++ text ++ "?"

def message : ErrorCause → String
  | notAStatement => "Expected an instruction or a label definition"
  | missingOperand => "Expected an operand"
  | unrecognizedOperand text => "Unrecognized operand '" ++ text ++ "'"
  | textAfter form => "Unexpected text after " ++ form.name
  | labelNamedAsRegister name register =>
    "Label '" ++ name ++ "' has the same name as register " ++ register.text
  | duplicateLabel name line =>
    "Label '" ++ name ++ "' is already defined on line " ++ Numeral.decimal line
  | badMnemonic reason suggestion => reason.message ++ didYouMean (suggestion.map Mnemonic.text)
  | operandCount mnemonic expected =>
    mnemonic ++ " should have " ++ Numeral.decimal expected ++ " operand(s)"
  | constantDestination => "destination cannot be a constant"
  | twoMemoryOperands => "At most one operand can be a memory reference"
  | missingRegisterName => "Expected a register name after '%'"
  | unknownRegister name suggestion =>
    "Invalid register '%" ++ name ++ "'" ++ didYouMean (suggestion.map Register.text)
  | formNotAllowed form => "This operand cannot be " ++ form.name
  | missingPercent register =>
    "Registers need a '%' prefix" ++ didYouMean (some register.text)
  | registerWidth register expected =>
    register.text ++ " is a " ++ Numeral.decimal register.size.bits ++
      "-bit register but this operand must be " ++ Numeral.decimal expected.bits ++ "-bit" ++
      didYouMean (some (register.withSize expected).text)
  | malformedConstant text => "Invalid constant '" ++ text ++ "'"
  | constantTooWide text needed available =>
    "Constant " ++ text ++ " needs " ++ Numeral.decimal needed ++
      " bits but this operand holds " ++ Numeral.decimal available
  | constantOutOfRange text available =>
    "Constant " ++ text ++ " does not fit in " ++ Numeral.decimal available ++ " bits"
  | unclosedParenthesis => "Missing ')' in memory operand"
  | invalidDisplacement => "Invalid displacement"
  | tooManyAddressParts => "A memory operand has the form offset(%base, %index, scale)"
  | missingAddressRegister role => "Memory operand needs a " ++ role.name ++ " register"
  | narrowAddressRegister role register =>
    "The " ++ role.name ++ " register must be 64-bit" ++
      didYouMean (some (register.withSize .quad).text)
  | invalidScale => "Scale must be 1, 2, 4, or 8"

end ErrorCause

/-- A rejected line: the cause, and the columns that it is about. -/
structure ParseError where
  cause : ErrorCause
  span : Span
  deriving DecidableEq, Repr

def ParseError.message (error : ParseError) : String :=
  error.cause.message

/-- Rejects a line because of one of its fragments. -/
def reject {Accepted : Type} (fragment : Fragment) (cause : ErrorCause) :
    Except ParseError Accepted :=
  .error ⟨cause, fragment.span⟩

end AsmLab.Source
