import AsmLab.Proofs.Machine.ReadBack

/-! Memory kept in two maps, one for the bytes and one for the steps that wrote them last. Whatever is
written, the two stay in step with each other and tell what the one map of cells tells. -/
namespace AsmLab

/-- What the two maps hold at an address, if they hold something there. -/
structure SplitMemory where
  bytes : Address → Option Byte
  stamps : Address → Option Nat

namespace SplitMemory

def empty : SplitMemory where
  bytes _ := none
  stamps _ := none

def byteAt (memory : SplitMemory) (address : Address) : Byte :=
  (memory.bytes address).getD 0

def read (memory : SplitMemory) (address : Address) : Nat → List Byte
  | 0 => []
  | length + 1 => memory.byteAt address :: memory.read (address + 1) length

def insert (memory : SplitMemory) (address : Address) (byte : Byte) (step : Nat) : SplitMemory where
  bytes := Function.update memory.bytes address (some byte)
  stamps := Function.update memory.stamps address (some step)

def write (memory : SplitMemory) (address : Address) (bytes : List Byte) (step : Nat) :
    SplitMemory :=
  match bytes with
  | [] => memory
  | byte :: rest => (memory.insert address byte step).write (address + 1) rest step

def lastWrite (memory : SplitMemory) (address : Address) (length : Nat) : Option Nat :=
  ((List.range length).filterMap fun offset =>
    memory.stamps (address + BitVec.ofNat 64 offset)).max?

end SplitMemory

namespace Memory

variable (memory : Memory)

/-- The bytes and the stamps of the cells. -/
def split : SplitMemory where
  bytes address := (memory.cell? address).map Cell.byte
  stamps address := (memory.cell? address).map Cell.writtenAt

theorem split_empty : empty.split = .empty :=
  rfl

theorem split_insert (address : Address) (cell : Cell) :
    (Memory.mk (memory.cells.insert address cell)).split =
      memory.split.insert address cell.byte cell.writtenAt := by
  have held (target : Address) : (Memory.mk (memory.cells.insert address cell)).cell? target =
      if target = address then some cell else memory.cell? target := by
    by_cases here : target = address
    · simp [cell?, here]
    · simp [cell?, Std.ExtTreeMap.getElem?_insert, here, Ne.symm here]
  rw [split, SplitMemory.insert, SplitMemory.mk.injEq]
  constructor <;>
  · funext target
    rw [held, Function.update_apply]
    split <;> rfl

/-- Writing to the cells is writing to both maps. -/
theorem split_write (address : Address) (bytes : List Byte) (step : Nat) :
    (memory.write address bytes step).split = memory.split.write address bytes step := by
  induction bytes generalizing memory address with
  | nil => rfl
  | cons byte rest ih => rw [write, ih, split_insert, SplitMemory.write]

theorem byteAt_split (address : Address) : memory.split.byteAt address = memory.byteAt address := by
  simp only [SplitMemory.byteAt, split, byteAt]
  cases memory.cell? address <;> rfl

theorem read_split (address : Address) (length : Nat) :
    memory.split.read address length = memory.read address length := by
  induction length generalizing address with
  | zero => rfl
  | succ length ih => rw [SplitMemory.read, ih, byteAt_split, read]

theorem lastWrite_split (address : Address) (length : Nat) :
    memory.split.lastWrite address length = memory.lastWrite address length :=
  rfl

end Memory

/-- A store that was made: where, how wide, what, and in which step. -/
structure Store where
  address : Address
  size : Size
  value : Int
  step : Nat
  deriving DecidableEq, Repr

def Store.bytes (store : Store) : List Byte :=
  littleEndian store.size.bytes (store.size.zeroExtend store.value).toNat

theorem Store.length_bytes_le (store : Store) : store.bytes.length ≤ 2 ^ 64 :=
  store.size.length_littleEndian_le _

namespace Memory

def withStores (memory : Memory) (stores : List Store) : Memory :=
  stores.foldl (fun memory store => memory.write store.address store.bytes store.step) memory

/-- The memory that a sequence of stores makes. -/
def replay (stores : List Store) : Memory :=
  stores.foldl (fun memory store => memory.write store.address store.bytes store.step) empty

theorem replay_append (earlier later : List Store) :
    replay (earlier ++ later) = (replay earlier).withStores later :=
  List.foldl_append

end Memory

namespace SplitMemory

/-- The two maps that a sequence of stores makes. -/
def replay (stores : List Store) : SplitMemory :=
  stores.foldl (fun memory store => memory.write store.address store.bytes store.step) empty

variable (stores : List Store)

theorem replay_concat (store : Store) : replay (stores ++ [store]) =
    (replay stores).write store.address store.bytes store.step := by
  rw [replay, List.foldl_concat]
  rfl

theorem replay_eq_split : replay stores = (Memory.replay stores).split := by
  induction stores using List.reverseRecOn with
  | nil => exact Memory.split_empty.symm
  | append_singleton earlier store ih =>
    rw [replay_concat, ih, ← Memory.split_write, Memory.replay, Memory.replay, List.foldl_concat]

/-- The two maps have the same addresses, whatever was stored. -/
theorem isSome_bytes_replay (address : Address) :
    ((replay stores).bytes address).isSome = ((replay stores).stamps address).isSome := by
  rw [replay_eq_split, Memory.split, Option.isSome_map, Option.isSome_map]

end SplitMemory

end AsmLab
