import AsmLab.Machine.Size
/-!
The sixteen general purpose registers and their narrower views. A view is a register read at a
width, or the second byte of one of the first four.
-/
namespace AsmLab

/-- A 64-bit general purpose register, in the order in which registers are listed. -/
inductive Gpr where
  | rax | rbx | rcx | rdx | rsi | rdi | rbp | rsp
  | r8 | r9 | r10 | r11 | r12 | r13 | r14 | r15
  deriving DecidableEq, Repr

namespace Gpr

def all : List Gpr :=
  [rax, rbx, rcx, rdx, rsi, rdi, rbp, rsp, r8, r9, r10, r11, r12, r13, r14, r15]

def index : Gpr → Fin 16
  | rax => 0
  | rbx => 1
  | rcx => 2
  | rdx => 3
  | rsi => 4
  | rdi => 5
  | rbp => 6
  | rsp => 7
  | r8 => 8
  | r9 => 9
  | r10 => 10
  | r11 => 11
  | r12 => 12
  | r13 => 13
  | r14 => 14
  | r15 => 15

theorem index_inj {first second : Gpr} : first.index = second.index ↔ first = second := by
  cases first <;> cases second <;> decide

/-- Name of the view of a register at each width. -/
def viewName : Gpr → Size → String
  | rax => names "al" "ax" "eax" "rax"
  | rbx => names "bl" "bx" "ebx" "rbx"
  | rcx => names "cl" "cx" "ecx" "rcx"
  | rdx => names "dl" "dx" "edx" "rdx"
  | rsi => names "sil" "si" "esi" "rsi"
  | rdi => names "dil" "di" "edi" "rdi"
  | rbp => names "bpl" "bp" "ebp" "rbp"
  | rsp => names "spl" "sp" "esp" "rsp"
  | r8 => names "r8b" "r8w" "r8d" "r8"
  | r9 => names "r9b" "r9w" "r9d" "r9"
  | r10 => names "r10b" "r10w" "r10d" "r10"
  | r11 => names "r11b" "r11w" "r11d" "r11"
  | r12 => names "r12b" "r12w" "r12d" "r12"
  | r13 => names "r13b" "r13w" "r13d" "r13"
  | r14 => names "r14b" "r14w" "r14d" "r14"
  | r15 => names "r15b" "r15w" "r15d" "r15"
where
  names (byte word long quad : String) : Size → String
    | .byte => byte
    | .word => word
    | .long => long
    | .quad => quad

def name (register : Gpr) : String :=
  register.viewName .quad

def upperName (register : Gpr) : String :=
  register.name.map Char.toUpper

end Gpr

/-- The registers whose second byte has a name of its own. -/
inductive HighByte where
  | ah
  | bh
  | ch
  | dh
  deriving DecidableEq, Repr

namespace HighByte

def parent : HighByte → Gpr
  | ah => .rax
  | bh => .rbx
  | ch => .rcx
  | dh => .rdx

def name : HighByte → String
  | ah => "ah"
  | bh => "bh"
  | ch => "ch"
  | dh => "dh"

end HighByte

/-- A named range of bits inside a 64-bit register. -/
inductive Register where
  | low (parent : Gpr) (size : Size)
  | high (byte : HighByte)
  deriving DecidableEq, Repr

namespace Register

/-- Every view, from the widest to the narrowest, the high bytes last. -/
def all : List Register :=
  [Size.quad, .long, .word, .byte].flatMap (fun size => Gpr.all.map (low · size)) ++
    [.high .ah, .high .bh, .high .ch, .high .dh]

def parent : Register → Gpr
  | low parent _ => parent
  | high byte => byte.parent

def size : Register → Size
  | low _ size => size
  | high _ => .byte

def isHighByte : Register → Bool
  | low .. => false
  | high _ => true

/-- Where the view starts inside its 64-bit register. -/
def shift : Register → Nat
  | low .. => 0
  | high _ => 8

/-- The view of the same 64-bit register at another width. A high byte gives the low one. -/
def withSize (register : Register) (size : Size) : Register :=
  low register.parent size

def name : Register → String
  | low parent size => parent.viewName size
  | high byte => byte.name

/-- The name as operands write it. -/
def text (register : Register) : String :=
  "%" ++ register.name

/-- Looks a name without its percent sign up; letter case does not matter. -/
def ofName? (name : String) : Option Register :=
  let lower := name.map Char.toLower
  all.find? (fun register => register.name == lower)

end Register

/-- The whole of a 64-bit register. -/
abbrev Gpr.full (register : Gpr) : Register :=
  .low register .quad

end AsmLab
