import AsmLab.Isa.Condition
import AsmLab.Machine.Size
/-!
Instructions without their widths: their names, how many operands they take and what each operand
place accepts.
-/
namespace AsmLab

inductive Opcode where
  | add | sub | imul | cmp | or | and | test | xor
  | sal | shl | sar | shr
  | mov | movz | movs | lea
  | idiv | inc | dec | neg | not
  | push | pop
  | set (condition : Condition)
  | jumpIf (condition : Condition)
  | jmp | call | ret | clt
  deriving DecidableEq, Repr

/-- What one operand place accepts, and its width. -/
structure Slot where
  size : Size
  constant : Bool := false
  register : Bool := false
  memory : Bool := false
  label : Bool := false
  deriving DecidableEq, Repr

namespace Slot

/-- Anything that can be read at a width. -/
def value (size : Size) : Slot :=
  { size, constant := true, register := true, memory := true }

/-- Anything that can be stored to at a width. -/
def location (size : Size) : Slot :=
  { size, register := true, memory := true }

def registerOnly (size : Size) : Slot :=
  { size, register := true }

def memoryOnly (size : Size) : Slot :=
  { size, memory := true }

/-- A shift count, always one byte wide. -/
def count : Slot :=
  { size := .byte, constant := true, register := true }

def target : Slot :=
  { size := .byte, label := true }

end Slot

namespace Opcode

/-- Instructions written with one width suffix of any width. -/
def sized : List Opcode :=
  [add, sub, imul, cmp, or, and, test, xor, sal, shl, sar, shr, mov, idiv, inc, dec, neg, not]

/-- Instructions that exist at the full width only. -/
def quadOnly : List Opcode :=
  [lea, push, pop, call, ret, clt]

/-- Instructions written with a source suffix and a wider destination suffix. -/
def widening : List Opcode :=
  [movz, movs]

/-- The mnemonic without its suffixes. -/
def name : Opcode → String
  | add => "add"
  | sub => "sub"
  | imul => "imul"
  | cmp => "cmp"
  | or => "or"
  | and => "and"
  | test => "test"
  | xor => "xor"
  | sal => "sal"
  | shl => "shl"
  | sar => "sar"
  | shr => "shr"
  | mov => "mov"
  | movz => "movz"
  | movs => "movs"
  | lea => "lea"
  | idiv => "idiv"
  | inc => "inc"
  | dec => "dec"
  | neg => "neg"
  | not => "not"
  | push => "push"
  | pop => "pop"
  | set condition => "set" ++ condition.name
  | jumpIf condition => "j" ++ condition.name
  | jmp => "jmp"
  | call => "call"
  | ret => "ret"
  | clt => "clt"

/-- Instructions written without a width suffix. -/
def isUnsized : Opcode → Bool
  | set _ | jumpIf _ | jmp => true
  | _ => false

/-- The operand places in writing order, so that the source of two comes first. -/
def slots (opcode : Opcode) (size sourceSize : Size) : List Slot :=
  match opcode with
  | add | sub | imul | cmp | or | and | test | xor | mov => [.value size, .location size]
  | sal | shl | sar | shr => [.count, .location size]
  | movz | movs => [.location sourceSize, .registerOnly size]
  | lea => [.memoryOnly size, .registerOnly size]
  | idiv | inc | dec | neg | not | pop | set _ => [.location size]
  | push => [.value size]
  | jumpIf _ | jmp | call => [.target]
  | ret | clt => []

def arity : Opcode → Nat
  | ret | clt => 0
  | idiv | inc | dec | neg | not | push | pop | set _ | jumpIf _ | jmp | call => 1
  | add | sub | imul | cmp | or | and | test | xor | sal | shl | sar | shr | mov | movz | movs
  | lea => 2

theorem length_slots (opcode : Opcode) (size sourceSize : Size) :
    (opcode.slots size sourceSize).length = opcode.arity := by
  cases opcode <;> rfl

end Opcode

end AsmLab
