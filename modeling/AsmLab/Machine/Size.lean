/-!
Operand widths and the two readings of a number at a width: the signed one and the unsigned one.
-/
namespace AsmLab

/-- Width of an operand, from one byte to eight. -/
inductive Size where
  | byte
  | word
  | long
  | quad
  deriving DecidableEq, Repr

namespace Size

def all : List Size := [.byte, .word, .long, .quad]

def bytes : Size → Nat
  | .byte => 1
  | .word => 2
  | .long => 4
  | .quad => 8

def bits (size : Size) : Nat :=
  8 * size.bytes

/-- How many numbers there are of this width. -/
def modulus : Size → Nat
  | .byte => 0x100
  | .word => 0x10000
  | .long => 0x100000000
  | .quad => 0x10000000000000000

def suffix : Size → Char
  | .byte => 'b'
  | .word => 'w'
  | .long => 'l'
  | .quad => 'q'

def ofSuffix? : Char → Option Size
  | 'b' => some .byte
  | 'w' => some .word
  | 'l' => some .long
  | 'q' => some .quad
  | _ => none

instance : LT Size where
  lt narrow wide := narrow.bytes < wide.bytes

instance (narrow wide : Size) : Decidable (narrow < wide) :=
  inferInstanceAs (Decidable (narrow.bytes < wide.bytes))

/-- The signed number held by the low bits of `value`. -/
def truncate (size : Size) (value : Int) : Int :=
  value.bmod size.modulus

/-- The unsigned number held by the low bits of `value`. -/
def zeroExtend (size : Size) (value : Int) : Int :=
  value % size.modulus

end Size

/-- Bits of the shortest two's complement form of `value`, its sign bit left out. -/
def bitLength : Int → Nat
  | .ofNat magnitude => if magnitude = 0 then 0 else magnitude.log2 + 1
  | .negSucc magnitude => if magnitude = 0 then 0 else magnitude.log2 + 1

/-- Whether `value` is a signed number of this width. -/
def Size.fits (size : Size) (value : Int) : Bool :=
  bitLength value + 1 ≤ size.bits

/-- Bit `index` of the endless two's complement form of `value`. -/
def bitAt (value : Int) (index : Nat) : Bool :=
  (value >>> index) % 2 = 1

end AsmLab
