import AsmLab.Isa.Instruction
/-!
What can go wrong while a line is evaluated. A defect is an instruction that no source text produces,
such as one with too few operands.
-/
namespace AsmLab

inductive Defect where
  | operandCount (mnemonic : Mnemonic) (count : Nat)
  | constantDestination (constant : Immediate)
  | labelDestination (name : String)
  | addressOf (operand : Operand String)
  | negativeTarget (line : Int)
  deriving DecidableEq, Repr

def Defect.message : Defect → String
  | .operandCount mnemonic count =>
    mnemonic.text ++ " evaluated with " ++ Numeral.decimal count ++ " operand(s)"
  | .constantDestination constant => "cannot write to constant " ++ constant.text
  | .labelDestination name => "cannot write to label " ++ name
  | .addressOf operand => "lea source must be a memory operand, got " ++ operand.text
  | .negativeTarget line => "label resolved to line " ++ Numeral.signed line

inductive FaultCause where
  | divisionByZero
  | divisionOverflow
  | unresolvedLabel (name : String)
  | stackUnderflow
  | invalidReturnAddress (address : Int)
  | internal (defect : Defect)
  deriving DecidableEq, Repr

def FaultCause.message : FaultCause → String
  | .divisionByZero => "Division by zero"
  | .divisionOverflow => "Division overflow: quotient does not fit in the destination"
  | .unresolvedLabel name => "Label '" ++ name ++ "' is not defined"
  | .stackUnderflow => "Stack underflow: no return address on the stack"
  | .invalidReturnAddress address => "Invalid return address: " ++ Numeral.signed address
  | .internal defect => "Internal error: " ++ defect.message

/-- A fault and the line that raised it. -/
structure Fault where
  line : Nat
  cause : FaultCause
  deriving DecidableEq, Repr

def Fault.message (fault : Fault) : String :=
  "line " ++ Numeral.decimal fault.line ++ ": " ++ fault.cause.message

end AsmLab
