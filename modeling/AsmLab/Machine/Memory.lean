import Std.Data.ExtTreeMap
/-!
Byte-addressed memory that knows which bytes were ever written and in which step. Addresses wrap at
the top of the address space; a byte that was never written reads as zero.
-/
namespace AsmLab

abbrev Address := BitVec 64
abbrev Byte := BitVec 8

/-- The low bytes of a number, lowest first. -/
def littleEndian : Nat → Nat → List Byte
  | 0, _ => []
  | count + 1, value => BitVec.ofNat 8 value :: littleEndian count (value / 256)

def ofLittleEndian : List Byte → Nat
  | [] => 0
  | byte :: rest => byte.toNat + 256 * ofLittleEndian rest

@[simp] theorem length_littleEndian (count value : Nat) :
    (littleEndian count value).length = count := by
  induction count generalizing value with
  | zero => rfl
  | succ count ih => simp [littleEndian, ih]

/-- A written byte and the step that wrote it last. -/
structure Cell where
  byte : Byte
  writtenAt : Nat
  deriving DecidableEq, Repr

structure Memory where
  cells : Std.ExtTreeMap Address Cell

namespace Memory

def empty : Memory := ⟨∅⟩

def cell? (memory : Memory) (address : Address) : Option Cell :=
  memory.cells[address]?

def byteAt (memory : Memory) (address : Address) : Byte :=
  (memory.cell? address).elim 0 Cell.byte

/-- The bytes of the `length` addresses from `address` on. -/
def read (memory : Memory) (address : Address) : Nat → List Byte
  | 0 => []
  | length + 1 => memory.byteAt address :: memory.read (address + 1) length

/-- Stores consecutive bytes and stamps each with the step that wrote it. -/
def write (memory : Memory) (address : Address) (bytes : List Byte) (step : Nat) : Memory :=
  match bytes with
  | [] => memory
  | byte :: rest =>
    (Memory.mk (memory.cells.insert address ⟨byte, step⟩)).write (address + 1) rest step

/-- The latest step that wrote one of the `length` bytes from `address` on. -/
def lastWrite (memory : Memory) (address : Address) (length : Nat) : Option Nat :=
  ((List.range length).filterMap fun offset =>
    (memory.cell? (address + BitVec.ofNat 64 offset)).map Cell.writtenAt).max?

/-- Number of bytes ever written. -/
def size (memory : Memory) : Nat :=
  memory.cells.size

/-- The written bytes in address order. -/
def toList (memory : Memory) : List (Address × Byte) :=
  memory.cells.toList.map fun entry => (entry.1, entry.2.byte)

end Memory

end AsmLab
