import AsmLab.Proofs.Exec.Division
import AsmLab.Proofs.Machine.NumberBytes

/-! Memory is an array of bytes that wraps around. Reading puts together the bytes of a range of
addresses, and storing replaces those of another one, however the two ranges meet. -/
namespace AsmLab

/-- The bytes of `number` are those at the `size` addresses from `start` on, lowest first. -/
def Size.ReadsAs (size : Size) (start : Address) (byteAt : Address → Byte) (number : Int) : Prop :=
  number ∈ size.range ∧ ∀ address, (Region.bytes start size).CoversByte address →
    byteOf number (address - start).toNat = byteAt address

namespace Size.ReadsAs

variable {size : Size} {start : Address} {byteAt others : Address → Byte} {first second : Int}

theorem congr (reads : size.ReadsAs start byteAt first)
    (same : ∀ address, (Region.bytes start size).CoversByte address →
      byteAt address = others address) : size.ReadsAs start others first :=
  ⟨reads.1, fun address covered => (reads.2 address covered).trans (same address covered)⟩

theorem unique (reads : size.ReadsAs start byteAt first)
    (again : size.ReadsAs start byteAt second) : first = second := by
  rw [← truncate_of_mem_range reads.1, ← truncate_of_mem_range again.1]
  refine truncate_congr fun index inside => ?_
  have offset : (start + BitVec.ofNat 64 index - start).toNat = index := by
    have bound := inside.trans (show size.bytes < 2 ^ 64 by cases size <;> decide)
    rw [BitVec.add_comm, BitVec.add_sub_cancel, BitVec.toNat_ofNat, Nat.mod_eq_of_lt bound]
  have covered : (Region.bytes start size).CoversByte (start + BitVec.ofNat 64 index) :=
    offset.trans_lt inside
  rw [← offset, reads.2 _ covered, again.2 _ covered]

end Size.ReadsAs

namespace Machine

variable (machine : Machine) (address : Address) (size : Size)

theorem readMemory_reads :
    size.ReadsAs address machine.memory.byteAt (machine.readMemory address size) := by
  refine ⟨?_, fun target covered => ?_⟩
  · rw [readMemory, Size.truncate_eq]
    exact Size.toInt_mem_range _
  · have place : address + BitVec.ofNat 64 (target - address).toNat = target := by
      rw [BitVec.ofNat_toNat, BitVec.setWidth_eq, BitVec.add_comm, BitVec.sub_add_cancel]
    rw [readMemory, Size.byteOf_truncate _ covered, byteOf_ofLittleEndian,
      Memory.getElem?_read _ _ covered, place, Option.getD_some]

/-- What is read is the only number of the width that has the bytes that are there. -/
theorem readMemory_eq_iff {number : Int} : machine.readMemory address size = number ↔
    size.ReadsAs address machine.memory.byteAt number := by
  refine ⟨?_, (machine.readMemory_reads address size).unique⟩
  rintro rfl
  exact machine.readMemory_reads address size

/-- A byte in the range of a store is that of the stored number, and any other is as it was. -/
theorem byteAt_store (value : Int) (target : Address) :
    (machine.store address size value).memory.byteAt target =
      if (Region.bytes address size).CoversByte target then
        byteOf value (target - address).toNat
      else machine.memory.byteAt target := by
  rw [store, Memory.byteAt_write _ _ (size.length_littleEndian_le _)]
  split
  · rename_i covered
    rw [Size.getElem?_stored value covered, Option.getD_some]
  · rename_i outside
    have past : size.bytes ≤ (target - address).toNat := Nat.le_of_not_lt outside
    rw [List.getElem?_eq_none (by rw [length_littleEndian]; exact past), Option.getD_none]

theorem readMemory_store_of_disjoint {other : Address} {width : Size} (value : Int)
    (disjoint : ∀ target, (Region.bytes address size).CoversByte target →
      ¬ (Region.bytes other width).CoversByte target) :
    (machine.store address size value).readMemory other width = machine.readMemory other width := by
  rw [readMemory_eq_iff]
  refine (machine.readMemory_reads other width).congr fun target covered => ?_
  rw [byteAt_store, if_neg fun inside => disjoint target inside covered]

/-- A store adds the addresses of its range to the written ones. -/
theorem isSome_cell?_store (value : Int) (target : Address) :
    ((machine.store address size value).memory.cell? target).isSome = true ↔
      (Region.bytes address size).CoversByte target ∨
        (machine.memory.cell? target).isSome = true := by
  by_cases covered : (Region.bytes address size).CoversByte target
  · rw [store, Memory.cell?_write _ _ (size.length_littleEndian_le _),
      Size.getElem?_stored value covered]
    simp [covered]
  · rw [cell?_store _ _ _ _ covered]
    simp [covered]

end Machine

end AsmLab
