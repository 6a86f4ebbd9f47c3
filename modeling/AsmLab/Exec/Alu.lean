import AsmLab.Machine.Flags
import AsmLab.Machine.Size
/-!
Results and flags of arithmetic, logic and shifts on signed numbers of a width. Each operation takes
the contents of its destination first.
-/
namespace AsmLab.Alu

/-- A result at the width of its operation, and what the operation does to the flags. -/
structure Result where
  value : Int
  flags : FlagUpdate
  deriving DecidableEq, Repr

/-- Zero and sign come from the result at its width, overflow from the exact one. -/
def arithmetic (size : Size) (exact : Int) (carry : Option Bool) : Result where
  value := size.truncate exact
  flags :=
    { FlagUpdate.zeroSign (size.truncate exact) with
      overflow := some !(size.fits exact)
      carry := carry }

/-- Carries out of the top bit when both terms are negative, or one is and the sum is not. -/
def add (size : Size) (destination source : Int) : Result :=
  let sum := size.truncate (destination + source)
  let carry :=
    (destination < 0 && source < 0) ||
      ((decide (destination < 0) != decide (source < 0)) && 0 ≤ sum)
  arithmetic size (destination + source) (some carry)

/-- Borrows when the subtrahend is the larger unsigned number. -/
def sub (size : Size) (destination source : Int) : Result :=
  let borrow :=
    ((decide (destination < 0) == decide (source < 0)) && destination < source) ||
      (0 ≤ destination && source < 0)
  arithmetic size (destination - source) (some borrow)

def imul (size : Size) (destination source : Int) : Result :=
  let product := destination * source
  arithmetic size product (some !(size.fits product))

/-- Increment and decrement leave the carry flag alone. -/
def inc (size : Size) (destination : Int) : Result :=
  arithmetic size (destination + 1) none

def dec (size : Size) (destination : Int) : Result :=
  arithmetic size (destination - 1) none

def neg (size : Size) (destination : Int) : Result :=
  arithmetic size (-destination) (some (destination ≠ 0))

/-- Logical operations clear overflow and carry. -/
def logical (combine : ∀ {width : Nat}, BitVec width → BitVec width → BitVec width)
    (size : Size) (destination source : Int) : Result :=
  let bits := combine (BitVec.ofInt size.bits destination) (BitVec.ofInt size.bits source)
  { value := bits.toInt
    flags := { FlagUpdate.zeroSign bits.toInt with overflow := some false, carry := some false } }

def and : Size → Int → Int → Result := logical (· &&& ·)

def or : Size → Int → Int → Result := logical (· ||| ·)

def xor : Size → Int → Int → Result := logical (· ^^^ ·)

/-- Complement touches no flag. -/
def not (size : Size) (destination : Int) : Result where
  value := (~~~(BitVec.ofInt size.bits destination)).toInt
  flags := .none

/-- A shift count is one byte, of which the low six bits count. -/
def shiftCount (source : Int) : Nat :=
  (Size.byte.zeroExtend source).toNat % 64

/-- The last bit shifted out, which a count of zero leaves alone. -/
def shiftCarry (count : Nat) (bit : Bool) : Option Bool :=
  if count = 0 then none else some bit

/-- Overflow of a shift by one tells whether the top bit changes. -/
def shl (size : Size) (destination : Int) (count : Nat) : Result :=
  let contents := size.zeroExtend destination
  let value := size.truncate (destination <<< count)
  let topChanges := bitAt contents (size.bits - 1) != bitAt contents (size.bits - 2)
  { value
    flags :=
      { FlagUpdate.zeroSign value with
        overflow := some (count = 1 && topChanges)
        carry := shiftCarry count (count ≤ size.bits && bitAt contents (size.bits - count)) } }

/-- Shifts to the right what `contents` holds, signed or unsigned, and clears overflow. -/
def shiftRight (size : Size) (contents : Int) (count : Nat) : Result :=
  let value := size.truncate (contents >>> count)
  { value
    flags :=
      { FlagUpdate.zeroSign value with
        overflow := some false
        carry := shiftCarry count (bitAt contents (count - 1)) } }

def sar (size : Size) (destination : Int) (count : Nat) : Result :=
  shiftRight size destination count

def shr (size : Size) (destination : Int) (count : Nat) : Result :=
  shiftRight size (size.zeroExtend destination) count

/-- Quotient and remainder of a division that rounds toward zero, unless the quotient is too wide. -/
def divide? (size : Size) (dividend divisor : Int) : Option (Int × Int) :=
  let quotient := dividend.tdiv divisor
  if size.fits quotient then some (quotient, dividend.tmod divisor) else none

end AsmLab.Alu
