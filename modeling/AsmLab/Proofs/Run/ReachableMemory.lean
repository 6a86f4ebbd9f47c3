import AsmLab.Proofs.Exec.ByteMemory
import AsmLab.Proofs.Exec.WriteStamps
import AsmLab.Proofs.Machine.SplitMemory
import AsmLab.Proofs.Run.History

/-! The memory of the machines that can be reached. It is what the stores on the way to the machine have
made of an empty one, and a line stores in the step that it is evaluated in, which is then counted. -/
namespace AsmLab

/-- The store that one step made in a region, if the region is in memory. Its number is the one that is
there after the step, which has all that was kept of the stored one. -/
def Region.store? (region : Region) (before after : Machine) : Option Store :=
  match region with
  | view _ => none
  | bytes address size => some ⟨address, size, after.readMemory address size, before.step⟩

namespace Machine

variable {before after : Machine} {regions : List Region}

def storesIn (before : Machine) (regions : List Region) (after : Machine) : List Store :=
  regions.filterMap fun region => region.store? before after

/-- Writing again what is there afterwards sets the bytes that are there, with the step as the stamp. -/
theorem cell?_write_readMemory (memory : Memory) (start : Address) (size : Size) (address : Address) :
    (memory.write start (Store.mk start size (after.readMemory start size) before.step).bytes
        before.step).cell? address =
      if (Region.bytes start size).CoversByte address then
        some ⟨after.memory.byteAt address, before.step⟩
      else memory.cell? address := by
  rw [Memory.cell?_write _ _ (Store.length_bytes_le _), Store.bytes]
  split_ifs with covered
  · have byte := (after.readMemory_reads start size).2 address covered
    rw [Size.getElem?_stored _ covered, byte]
  · have past : size.bytes ≤ (address - start).toNat := Nat.le_of_not_lt covered
    rw [List.getElem?_eq_none (by rw [length_littleEndian]; exact past)]

/-- Where regions meet it does not matter which is made first, since each has the final bytes. -/
theorem cell?_withStores_storesIn (memory : Memory) (address : Address) :
    (memory.withStores (before.storesIn regions after)).cell? address =
      if ∃ region ∈ regions, region.CoversByte address then
        some ⟨after.memory.byteAt address, before.step⟩
      else memory.cell? address := by
  induction regions generalizing memory with
  | nil => simp [storesIn, Memory.withStores]
  | cons region rest ih =>
    simp only [List.exists_mem_cons_iff]
    cases region with
    | view register =>
      have spared : ¬ (Region.view register).CoversByte address := id
      simp only [spared, false_or]
      exact ih memory
    | bytes start size =>
      refine (ih _).trans ?_
      rw [cell?_write_readMemory]
      by_cases later : ∃ region ∈ rest, region.CoversByte address
      · rw [if_pos later, if_pos (.inr later)]
      · simp only [later, or_false, if_false]

/-- If a step stamps the bytes of some regions and changes no others, the stores in them are all that
it did to memory. -/
theorem Stamped.memory_eq (stamped : before.Stamped regions after)
    (outside : before.SameOutside regions after) :
    after.memory = before.memory.withStores (before.storesIn regions after) := by
  refine Memory.ext_cell? fun address => ?_
  rw [cell?_withStores_storesIn]
  split
  · rename_i covered
    obtain ⟨region, listed, covered⟩ := covered
    obtain ⟨byte, held⟩ := stamped region listed address covered
    rw [Memory.byteAt, held]
    rfl
  · rename_i spared
    exact outside.memory address fun region listed covered => spared ⟨region, listed, covered⟩

end Machine

namespace Line

/-- What a line stores when it is evaluated: to the destination of its instruction, or to the slot that
a push or a call fills. -/
def stores (line : Line) (before after : Machine) : List Store :=
  line.instruction?.elim [] fun body => before.storesIn (body.written before) after

variable {line : Line} {machine after : Machine} {labels : LabelTable}

theorem evaluate_memory (evaluates : line.evaluate machine labels = .ok after) :
    after.memory = machine.memory.withStores (line.stores machine after) := by
  unfold evaluate at evaluates
  unfold stores
  split at evaluates
  · rename_i none
    obtain rfl := Except.ok.inj evaluates
    rw [none]
    rfl
  · rename_i body found
    split at evaluates
    · rename_i reached run
      obtain rfl := Except.ok.inj evaluates
      obtain ⟨update, effect, _⟩ := Instruction.execute_effect run
      rw [found]
      exact ((Instruction.execute_stamped run).of_later rfl).memory_eq (effect.outside.of_later rfl rfl)
    · cases evaluates

theorem step_of_mem_stores {store : Store} (listed : store ∈ line.stores machine after) :
    store.step = machine.step := by
  unfold stores at listed
  cases found : line.instruction? with
  | none =>
    rw [found] at listed
    cases listed
  | some body =>
    rw [found] at listed
    obtain ⟨region, _, same⟩ := List.mem_filterMap.mp listed
    cases region with
    | view register => cases same
    | bytes address size =>
      obtain rfl := Option.some.inj same
      rfl

end Line

namespace Machine

/-- The machines that a fresh one is turned into by evaluating lines, of whatever program, and by
setting registers, memory, flags and the program counter by hand. -/
inductive Reachable : Machine → Prop where
  | initial (stackBase : Address) : Reachable (.initial stackBase)
  | evaluate {machine after : Machine} (reached : Reachable machine) (line : Line)
      (labels : LabelTable) (evaluates : line.evaluate machine labels = .ok after) : Reachable after
  | setRegister {machine : Machine} (reached : Reachable machine) (register : Register)
      (value : Int) : Reachable (machine.setRegister register value)
  | store {machine : Machine} (reached : Reachable machine) (address : Address) (size : Size)
      (value : Int) : Reachable (machine.store address size value)
  | updateFlags {machine : Machine} (reached : Reachable machine) (update : FlagUpdate) :
      Reachable (machine.updateFlags update)
  | jump {machine : Machine} (reached : Reachable machine) (line : Nat) :
      Reachable (machine.jump line)

/-- The same machines, each with the stores that were made on the way to it, in their order. -/
inductive MadeBy : Machine → List Store → Prop where
  | initial (stackBase : Address) : MadeBy (.initial stackBase) []
  | evaluate {machine after : Machine} {stores : List Store} (made : MadeBy machine stores)
      (line : Line) (labels : LabelTable) (evaluates : line.evaluate machine labels = .ok after) :
      MadeBy after (stores ++ line.stores machine after)
  | setRegister {machine : Machine} {stores : List Store} (made : MadeBy machine stores)
      (register : Register) (value : Int) : MadeBy (machine.setRegister register value) stores
  | store {machine : Machine} {stores : List Store} (made : MadeBy machine stores)
      (address : Address) (size : Size) (value : Int) :
      MadeBy (machine.store address size value) (stores ++ [⟨address, size, value, machine.step⟩])
  | updateFlags {machine : Machine} {stores : List Store} (made : MadeBy machine stores)
      (update : FlagUpdate) : MadeBy (machine.updateFlags update) stores
  | jump {machine : Machine} {stores : List Store} (made : MadeBy machine stores) (line : Nat) :
      MadeBy (machine.jump line) stores

theorem Reachable.exists_madeBy {machine : Machine} (reached : machine.Reachable) :
    ∃ stores, machine.MadeBy stores := by
  induction reached with
  | initial stackBase => exact ⟨[], .initial stackBase⟩
  | evaluate _ line labels evaluates ih =>
    exact ih.imp' _ fun _ made => made.evaluate line labels evaluates
  | setRegister _ register value ih => exact ih.imp fun _ made => made.setRegister register value
  | store _ address size value ih => exact ih.imp' _ fun _ made => made.store address size value
  | updateFlags _ update ih => exact ih.imp fun _ made => made.updateFlags update
  | jump _ line ih => exact ih.imp fun _ made => made.jump line

namespace MadeBy

variable {machine : Machine} {stores : List Store}

theorem reachable (made : machine.MadeBy stores) : machine.Reachable := by
  induction made with
  | initial stackBase => exact .initial stackBase
  | evaluate _ line labels evaluates ih => exact ih.evaluate line labels evaluates
  | setRegister _ register value ih => exact ih.setRegister register value
  | store _ address size value ih => exact ih.store address size value
  | updateFlags _ update ih => exact ih.updateFlags update
  | jump _ line ih => exact ih.jump line

theorem memory_eq (made : machine.MadeBy stores) : machine.memory = Memory.replay stores := by
  induction made with
  | initial stackBase => rfl
  | evaluate _ line labels evaluates ih =>
    rw [Memory.replay_append, ← ih, line.evaluate_memory evaluates]
  | setRegister _ register value ih | updateFlags _ update ih | jump _ line ih => exact ih
  | store _ address size value ih =>
    rw [Memory.replay_append, ← ih]
    rfl

theorem step_le (made : machine.MadeBy stores) : ∀ store ∈ stores, store.step ≤ machine.step := by
  induction made with
  | initial stackBase => nofun
  | @evaluate machine after _ _ line labels evaluates ih =>
    have counted := (line.evaluate_frame evaluates).1
    refine List.forall_mem_append.mpr ⟨fun store listed => ?_, fun store listed => ?_⟩
    · exact (ih store listed).trans (by omega)
    · rw [Line.step_of_mem_stores listed]
      omega
  | setRegister _ register value ih | updateFlags _ update ih | jump _ line ih => exact ih
  | store _ address size value ih =>
    exact List.forall_mem_append.mpr ⟨ih, List.forall_mem_singleton.mpr le_rfl⟩

/-- A stamp is the step of one of the stores. -/
theorem writtenAt_le (made : machine.MadeBy stores) {address : Address} {cell : Cell}
    (held : machine.memory.cell? address = some cell) : cell.writtenAt ≤ machine.step := by
  have bounded := made.step_le
  rw [made.memory_eq] at held
  clear made
  induction stores using List.reverseRecOn with
  | nil => cases held
  | append_singleton earlier store ih =>
    obtain ⟨before, last⟩ := List.forall_mem_append.mp bounded
    rw [Memory.replay, List.foldl_concat, Memory.cell?_write _ _ store.length_bytes_le] at held
    split at held
    · obtain rfl := Option.some.inj held
      exact last store (List.mem_singleton_self _)
    · exact ih held before

end MadeBy

/-- Stores a value if there is one, updates the flags and may go on to the next line. -/
def writeMemory (machine : Machine) (address : Address) (value : Option Int) (size : Size)
    (update : FlagUpdate) (advances : Bool) : Machine :=
  let stored := (value.elim machine (machine.store address size)).updateFlags update
  if advances then stored.advance else stored

theorem memory_writeMemory (machine : Machine) (address : Address) (value : Int) (size : Size)
    (update : FlagUpdate) (advances : Bool) :
    (machine.writeMemory address (some value) size update advances).memory =
      (machine.store address size value).memory := by
  cases advances <;> rfl

theorem MadeBy.writeMemory {machine : Machine} {stores : List Store} (made : machine.MadeBy stores)
    (address : Address) (value : Option Int) (size : Size) (update : FlagUpdate) (advances : Bool) :
    (machine.writeMemory address value size update advances).MadeBy
      (stores ++ value.toList.map (⟨address, size, ·, machine.step⟩)) := by
  have stored : (value.elim machine (machine.store address size)).MadeBy
      (stores ++ value.toList.map (⟨address, size, ·, machine.step⟩)) := by
    cases value with
    | none => simpa using made
    | some value => exact made.store address size value
  cases advances with
  | false => exact stored.updateFlags update
  | true => exact (stored.updateFlags update).jump _

/-- Memory is an array of bytes that wraps around. After a write at any address, a read anywhere
gives the number of its width that has the written bytes where the ranges meet and the earlier ones
elsewhere, and exactly the written range is added to the addresses that are held. Making the stores of
a machine that can be reached again gives one map of bytes and one of stamps, which come to its memory
and have the same addresses, and no stamp is later than the machine's step. -/
theorem memory_bytewise :
    (∀ (machine : Machine) (written read : Address) (width size : Size) (value : Int)
        (update : FlagUpdate) (advances : Bool),
      let after := machine.writeMemory written (some value) width update advances
      (∀ number, after.readMemory read size = number ↔
        size.ReadsAs read (fun address =>
          if (Region.bytes written width).CoversByte address then
            byteOf value (address - written).toNat
          else machine.memory.byteAt address) number) ∧
      after.readMemory written width = width.truncate value ∧
      ((∀ address, (Region.bytes written width).CoversByte address →
          ¬ (Region.bytes read size).CoversByte address) →
        after.readMemory read size = machine.readMemory read size) ∧
      ∀ address, (after.memory.cell? address).isSome = true ↔
        (Region.bytes written width).CoversByte address ∨
          (machine.memory.cell? address).isSome = true) ∧
    ∀ machine : Machine, machine.Reachable → (∃ stores, machine.MadeBy stores) ∧
      ∀ stores, machine.MadeBy stores →
      let maps := SplitMemory.replay stores
      maps = machine.memory.split ∧
      (∀ address length, maps.read address length = machine.memory.read address length ∧
        maps.lastWrite address length = machine.memory.lastWrite address length) ∧
      (∀ address, (maps.bytes address).isSome = (maps.stamps address).isSome) ∧
      ∀ address stamp, maps.stamps address = some stamp → stamp ≤ machine.step := by
  refine ⟨fun machine written read width size value update advances => ?_,
    fun machine reached => ⟨reached.exists_madeBy, fun stores made => ?_⟩⟩
  · have memory := machine.memory_writeMemory written value width update advances
    have stored (address : Address) (size : Size) :
        (machine.writeMemory written (some value) width update advances).readMemory address size =
          (machine.store written width value).readMemory address size := by
      rw [readMemory, memory, readMemory]
    refine ⟨fun number => ?_, ?_, fun disjoint => ?_, fun address => ?_⟩
    · have bytes := funext (machine.byteAt_store written width value)
      rw [stored, readMemory_eq_iff, bytes]
    · rw [stored, readMemory_store]
    · rw [stored, readMemory_store_of_disjoint machine written width value disjoint]
    · rw [memory, isSome_cell?_store]
  · have maps : SplitMemory.replay stores = machine.memory.split := by
      rw [SplitMemory.replay_eq_split, made.memory_eq]
    refine ⟨maps, fun address length => ?_, SplitMemory.isSome_bytes_replay stores,
      fun address stamp held => ?_⟩
    · rw [maps]
      exact ⟨machine.memory.read_split address length, machine.memory.lastWrite_split address length⟩
    · rw [maps] at held
      obtain ⟨cell, found, rfl⟩ := Option.map_eq_some_iff.mp held
      exact made.writtenAt_le found

/-- A line that pushes a quad, and two bytes written into four that wrap around the top of the address
space. -/
theorem memory_bytewise_wrapped :
    let line : Line :=
      ⟨0, .instruction ⟨.uniform .push .quad, .unary (.immediate ⟨5, .decimal⟩)⟩, none, false⟩
    let pushed := ((Machine.initial 0x8000).push 5).advance.countStep
    let machine := pushed.store 0xFFFFFFFFFFFFFFFE .long (-1)
    let after := machine.writeMemory 0xFFFFFFFFFFFFFFFF (some 0x8000) .word .none true
    let stores : List Store := [⟨0x7ff8, .quad, 5, 0⟩, ⟨0xFFFFFFFFFFFFFFFE, .long, -1, 1⟩,
      ⟨0xFFFFFFFFFFFFFFFF, .word, 0x8000, 1⟩]
    line.evaluate (.initial 0x8000) .empty = .ok pushed ∧ machine.Reachable ∧
      after.readMemory 0xFFFFFFFFFFFFFFFE .quad = 0xFF8000FF ∧
      after.readMemory 0xFFFFFFFFFFFFFFFF .word = -0x8000 ∧
      after.readMemory 0x1 .byte = machine.readMemory 0x1 .byte ∧
      after.MadeBy stores ∧ SplitMemory.replay stores = after.memory.split := by
  intro line pushed machine after stores
  have evaluates : line.evaluate (.initial 0x8000) .empty = .ok pushed := rfl
  have stored : line.stores (.initial 0x8000) pushed = [⟨0x7ff8, .quad, 5, 0⟩] := by decide +kernel
  have first : pushed.MadeBy [⟨0x7ff8, .quad, 5, 0⟩] := by
    have made := (MadeBy.initial 0x8000).evaluate line .empty evaluates
    rwa [stored] at made
  have earlier : machine.MadeBy [⟨0x7ff8, .quad, 5, 0⟩, ⟨0xFFFFFFFFFFFFFFFE, .long, -1, 1⟩] :=
    first.store _ _ _
  have made : after.MadeBy stores := earlier.writeMemory _ (some 0x8000) .word .none true
  obtain ⟨_, back, apart, _⟩ :=
    memory_bytewise.1 machine 0xFFFFFFFFFFFFFFFF 0x1 .word .byte 0x8000 .none true
  obtain ⟨maps, _⟩ := (memory_bytewise.2 after made.reachable).2 stores made
  refine ⟨evaluates, earlier.reachable, by decide +kernel, back,
    apart fun address inside covered => ?_, made, maps⟩
  have first : (address - 0xFFFFFFFFFFFFFFFF).toNat < 2 := inside
  have second : (address - 1).toNat < 1 := covered
  bv_omega

end Machine

/-- However a simulation is run, the machines of its history are reached from the initial one. -/
theorem Simulation.Reachable.machines_reachable {program : Program} {initial : Machine}
    {limits : RunLimits} {edited : Bool} {simulation : Simulation} (built : program.Reachable)
    (start : initial.Reachable)
    (reached : Simulation.Reachable program initial limits edited simulation) :
    ∀ machine ∈ simulation.history, machine.Reachable := by
  obtain ⟨rfl, stepped, _⟩ := reached.traced built.sound
  refine stepped.all start ?_
  rintro before reached ⟨program, decision, line, step⟩ held
  cases step with
  | evaluated _ _ evaluates => exact held.evaluate line program.labels evaluates
  -- A skipped line does what a blank one does.
  | skipped => exact held.evaluate ⟨0, .blank, none, false⟩ program.labels rfl

end AsmLab
