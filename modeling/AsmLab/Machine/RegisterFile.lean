import AsmLab.Machine.Register
/-!
Contents of the general purpose registers. Writing a view splices its bits into the 64-bit register
and leaves every other bit alone, at every width.
-/
namespace AsmLab

/-- `whole` with the bits from `start` on replaced by `part`. -/
def splice {width : Nat} (whole : BitVec 64) (start : Nat) (part : BitVec width) : BitVec 64 :=
  let window := (BitVec.allOnes width).setWidth 64 <<< start
  (whole &&& ~~~window) ||| (part.setWidth 64 <<< start)

theorem getLsbD_splice {width : Nat} (whole : BitVec 64) (start : Nat) (part : BitVec width)
    (index : Nat) (inside : index < 64) :
    (splice whole start part).getLsbD index =
      if start ≤ index ∧ index < start + width then part.getLsbD (index - start)
      else whole.getLsbD index := by
  unfold splice
  by_cases below : index < start
  · have outside : ¬ start ≤ index := by omega
    simp [inside, below, outside]
  · by_cases within : index < start + width
    · have reached : index - start < width := by omega
      have covered : start ≤ index := by omega
      simp [inside, below, within, reached, covered]
    · have past : ¬ index - start < width := by omega
      have empty : part.getLsbD (index - start) = false := BitVec.getLsbD_of_ge _ _ (by omega)
      simp [inside, below, within, past, empty]

structure RegisterFile where
  slots : Vector (BitVec 64) 16
  deriving DecidableEq, Repr

namespace RegisterFile

def zero : RegisterFile :=
  ⟨Vector.replicate 16 0⟩

def get (file : RegisterFile) (register : Gpr) : BitVec 64 :=
  file.slots[register.index]

def set (file : RegisterFile) (register : Gpr) (word : BitVec 64) : RegisterFile :=
  ⟨file.slots.set register.index word⟩

/-- The bits of a view. -/
def view (file : RegisterFile) (register : Register) : BitVec register.size.bits :=
  (file.get register.parent).extractLsb' register.shift register.size.bits

/-- A view as an unsigned 64-bit word. -/
def read (file : RegisterFile) (register : Register) : BitVec 64 :=
  (file.view register).setWidth 64

/-- A view as a signed number. -/
def readSigned (file : RegisterFile) (register : Register) : Int :=
  (file.view register).toInt

/-- Replaces the bits of a view. -/
def setView (file : RegisterFile) (register : Register) (bits : BitVec register.size.bits) :
    RegisterFile :=
  file.set register.parent (splice (file.get register.parent) register.shift bits)

/-- Stores the low bits of a number into a view. -/
def write (file : RegisterFile) (register : Register) (value : Int) : RegisterFile :=
  file.setView register (BitVec.ofInt register.size.bits value)

theorem get_set (file : RegisterFile) (written read : Gpr) (word : BitVec 64) :
    (file.set written word).get read = if written = read then word else file.get read := by
  simp [get, set, Vector.getElem_set, Fin.val_inj, Gpr.index_inj]

end RegisterFile

end AsmLab
