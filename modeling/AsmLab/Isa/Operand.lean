import AsmLab.Isa.Label
import AsmLab.Machine.Register
import AsmLab.Numeral
/-!
Operands and their canonical text. The type of labels is a parameter: source text refers to a label by
its name, a program by an entry of its label table.
-/
namespace AsmLab

/-- How an immediate is spelled. The digit count of a hexadecimal one decides its width. -/
inductive Radix where
  | decimal
  | hex (digits : Nat)
  deriving DecidableEq, Repr

structure Immediate where
  value : Int
  radix : Radix
  deriving DecidableEq, Repr

def Immediate.text (immediate : Immediate) : String :=
  let sign := if immediate.value < 0 then "$-" else "$"
  match immediate.radix with
  | .decimal => sign ++ Numeral.decimal immediate.value.natAbs
  | .hex digits =>
    sign ++ "0x" ++ Numeral.padLeft digits '0' (Numeral.hex immediate.value.natAbs)

/-- A place in memory: a displacement, a base register and a scaled index register. -/
structure MemoryRef where
  displacement : BitVec 64
  base : Register
  index : Option Register
  scale : Nat
  deriving DecidableEq, Repr

/-- The parts of a memory reference that say nothing are left out. -/
def MemoryRef.text (reference : MemoryRef) : String :=
  let displacement :=
    if reference.displacement = 0 then "" else Numeral.signed reference.displacement.toInt
  let scale := if reference.scale = 1 then "" else "," ++ Numeral.decimal reference.scale
  let index := reference.index.elim "" fun register => "," ++ register.text ++ scale
  displacement ++ "(" ++ reference.base.text ++ index ++ ")"

/-- An entry of a label table, with the name that the source used for it. -/
structure LabelRef where
  id : LabelId
  name : String
  deriving DecidableEq, Repr

inductive Operand (Label : Type) where
  | immediate (constant : Immediate)
  | register (register : Register)
  | memory (reference : MemoryRef)
  | label (label : Label)
  deriving DecidableEq, Repr

namespace Operand

def map {Name Label : Type} (refer : Name → Label) : Operand Name → Operand Label
  | immediate constant => immediate constant
  | register reg => register reg
  | memory reference => memory reference
  | label name => label (refer name)

def text : Operand String → String
  | immediate constant => constant.text
  | register reg => reg.text
  | memory reference => reference.text
  | label name => name

def isMemory {Label : Type} : Operand Label → Bool
  | memory _ => true
  | _ => false

/-- The 64-bit registers that the operand reads or writes. -/
def registers {Label : Type} : Operand Label → List Gpr
  | register reg => [reg.parent]
  | memory reference => reference.base.parent :: reference.index.toList.map Register.parent
  | immediate _ | label _ => []

end Operand

end AsmLab
