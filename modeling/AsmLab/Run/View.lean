import AsmLab.Run.Simulation
/-!
What a front end shows of a machine: the registers, and the slots of the stack, each with the number of
steps since it was last touched.
-/
namespace AsmLab

structure RegisterView where
  register : Gpr
  value : BitVec 64
  /-- Zero if the latest step used the register, one for the step before, and so on. -/
  rank : Option Nat
  deriving DecidableEq, Repr

def RegisterView.name (view : RegisterView) : String :=
  view.register.full.text

structure StackSlot where
  start : Address
  value : BitVec 64
  /-- Steps since a byte of the slot was last written. -/
  rank : Option Nat
  deriving DecidableEq, Repr

/-- End of the slot, not included. The last address has no successor. -/
def StackSlot.stop (slot : StackSlot) : Nat :=
  min (slot.start.toNat + 8) (Numeral.wordLimit - 1)

/-- No more slots than this are shown. -/
def maxStackSlots : Nat := 512

/-- The value and the recency of the quad at an address. -/
def Machine.stackSlot (machine : Machine) (address : Address) : StackSlot where
  start := address
  value := BitVec.ofInt 64 (machine.readMemory address .quad)
  rank := (machine.memory.lastWrite address 8).map fun written => machine.step - (written + 1)

/-- Consecutive slots below the stack base, at most as many as `room`. -/
def Machine.slotsFrom (machine : Machine) (address : Nat) : Nat → List StackSlot
  | 0 => []
  | room + 1 =>
    if address < machine.stackBase.toNat then
      machine.stackSlot (BitVec.ofNat 64 address) :: machine.slotsFrom (address + 8) room
    else []

namespace Simulation

def registerRank (simulation : Simulation) (register : Gpr) : Option Nat :=
  simulation.trail.findIdx? fun reached => register ∈ reached.used

def registers (simulation : Simulation) : List RegisterView :=
  Gpr.all.map fun register =>
    ⟨register, simulation.current.registers.get register, simulation.registerRank register⟩

/-- From the stack pointer up to the stack base, lowest address first. -/
def stack (simulation : Simulation) : List StackSlot :=
  simulation.current.slotsFrom simulation.current.stackPointer.toNat maxStackSlots

end Simulation

end AsmLab
