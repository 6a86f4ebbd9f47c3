/-!
The four status flags and partial updates of them. A flag that an update does not mention keeps the
value that it had.
-/
namespace AsmLab

structure Flags where
  zero : Bool := false
  sign : Bool := false
  overflow : Bool := false
  carry : Bool := false
  deriving DecidableEq, Repr

namespace Flags

/-- Value of the flags register: carry is bit 0, zero 6, sign 7 and overflow 11. -/
def word (flags : Flags) : Nat :=
  flags.carry.toNat + 64 * flags.zero.toNat + 128 * flags.sign.toNat + 2048 * flags.overflow.toNat

/-- One letter a flag, a dash where it is clear. -/
def letters (flags : Flags) : String :=
  String.ofList
    [letter flags.zero 'Z', letter flags.sign 'S', letter flags.overflow 'O', letter flags.carry 'C']
where
  letter (set : Bool) (char : Char) : Char := if set then char else '-'

end Flags

/-- New values for some of the flags. -/
structure FlagUpdate where
  zero : Option Bool := none
  sign : Option Bool := none
  overflow : Option Bool := none
  carry : Option Bool := none
  deriving DecidableEq, Repr

namespace FlagUpdate

def none : FlagUpdate := {}

/-- Zero and sign of a signed result. -/
def zeroSign (result : Int) : FlagUpdate :=
  { zero := some (result = 0), sign := some (result < 0) }

def apply (update : FlagUpdate) (flags : Flags) : Flags where
  zero := update.zero.getD flags.zero
  sign := update.sign.getD flags.sign
  overflow := update.overflow.getD flags.overflow
  carry := update.carry.getD flags.carry

@[simp] theorem apply_none (flags : Flags) : none.apply flags = flags := rfl

end FlagUpdate

end AsmLab
