import AsmLab.Proofs.Exec.WriteStamps
import AsmLab.Proofs.Run.History
import AsmLab.Run.View

/-! What the view of the stack shows. Its slots are the quads from the stack pointer up to the stack
base, for every machine; the rank of a slot counts the steps since one of its bytes was last stored, for
every history without edits. -/
namespace AsmLab

section Slots

variable {machine : Machine} {address room index : Nat} {slot : StackSlot}

theorem Machine.length_slotsFrom (machine : Machine) (address room : Nat) :
    (machine.slotsFrom address room).length =
      min room ((machine.stackBase.toNat - address + 7) / 8) := by
  induction room generalizing address with
  | zero => simp [Machine.slotsFrom]
  | succ room ih =>
    rw [Machine.slotsFrom]
    split
    · rw [List.length_cons, ih]
      omega
    · rw [List.length_nil]
      omega

/-- The slots follow one another below the stack base, so no address wraps around. -/
theorem Machine.getElem?_slotsFrom (found : (machine.slotsFrom address room)[index]? = some slot) :
    address + 8 * index < machine.stackBase.toNat ∧
      slot = machine.stackSlot (BitVec.ofNat 64 (address + 8 * index)) := by
  induction room generalizing address index with
  | zero => cases found
  | succ room ih =>
    rw [Machine.slotsFrom] at found
    split at found
    · rename_i below
      cases index with
      | zero =>
        obtain rfl := Option.some.inj found
        exact ⟨below, rfl⟩
      | succ index =>
        rw [List.getElem?_cons_succ] at found
        have next : address + 8 + 8 * index = address + 8 * (index + 1) := by omega
        rw [← next]
        exact ih found
    · cases found

theorem ofLittleEndian_lt (bytes : List Byte) : ofLittleEndian bytes < 256 ^ bytes.length := by
  induction bytes with
  | nil => simp [ofLittleEndian]
  | cons byte rest ih =>
    rw [ofLittleEndian, List.length_cons, Nat.pow_succ]
    have := byte.isLt
    omega

theorem Machine.toNat_value_stackSlot (machine : Machine) (address : Address) :
    (machine.stackSlot address).value.toNat = ofLittleEndian (machine.memory.read address 8) := by
  have small := ofLittleEndian_lt (machine.memory.read address 8)
  rw [Memory.length_read] at small
  rw [Machine.stackSlot, Machine.readMemory, Size.truncate_eq]
  change (BitVec.ofInt 64 (BitVec.ofInt 64 _).toInt).toNat = _
  rw [BitVec.ofInt_toInt, BitVec.ofInt_natCast, BitVec.toNat_ofNat]
  exact Nat.mod_eq_of_lt small

end Slots

/-- The last position, if there is one, at which something happened. -/
def IsLast (happens : Nat → Prop) : Option Nat → Prop
  | none => ∀ index, ¬ happens index
  | some last => happens last ∧ ∀ later, last < later → ¬ happens later

theorem IsLast.unique {happens : Nat → Prop} {last other : Nat} (isLast : IsLast happens (some last))
    (again : IsLast happens (some other)) : last = other := by
  rcases Nat.lt_trichotomy last other with less | same | greater
  · exact absurd again.1 (isLast.2 other less)
  · exact same
  · exact absurd isLast.1 (again.2 last greater)

/-- What happened last at some of several places happened at the latest of the last times there. -/
theorem IsLast.max? {happens : Nat → Nat → Prop} {last? : Nat → Option Nat}
    (last : ∀ place, IsLast (happens place) (last? place)) (count : Nat) :
    IsLast (fun index => ∃ place < count, happens place index)
      ((List.range count).filterMap last?).max? := by
  cases latest : ((List.range count).filterMap last?).max? with
  | none =>
    intro index happened
    obtain ⟨place, inside, happened⟩ := happened
    rw [List.max?_eq_none_iff, List.filterMap_eq_nil_iff] at latest
    have never := last place
    rw [latest place (List.mem_range.mpr inside)] at never
    exact never index happened
  | some index =>
    obtain ⟨member, greatest⟩ := List.max?_eq_some_iff.mp latest
    obtain ⟨place, inside, found⟩ := List.mem_filterMap.mp member
    have here := last place
    rw [found] at here
    refine ⟨⟨place, List.mem_range.mp inside, here.1⟩, ?_⟩
    intro later after happened
    obtain ⟨other, within, happened⟩ := happened
    have there := last other
    cases known : last? other with
    | none =>
      rw [known] at there
      exact there later happened
    | some earlier =>
      rw [known] at there
      have bound := greatest earlier (List.mem_filterMap.mpr ⟨other, List.mem_range.mpr within, known⟩)
      exact there.2 later (by omega) happened

namespace Program.Step

variable {program : Program} {machine : Machine} {line : Line} {reached : Reached}
  {address : Address}

theorem stamped (step : program.Step machine .proceed line reached)
    (stores : line.StoresTo machine address) :
    ∃ byte, reached.machine.memory.cell? address = some ⟨byte, machine.step⟩ := by
  cases step with
  | evaluated _ _ evaluates => exact line.evaluate_stamped evaluates stores

/-- A line that is skipped, or does not store to a byte, leaves its cell. -/
theorem cell?_eq {decision : LineDecision} (step : program.Step machine decision line reached)
    (spared : decision = .proceed → ¬ line.StoresTo machine address) :
    reached.machine.memory.cell? address = machine.memory.cell? address := by
  cases step with
  | evaluated _ _ evaluates => exact line.evaluate_cell? evaluates (spared rfl)
  | skipped => rfl

end Program.Step

namespace Simulation

variable {program : Program} {initial : Machine} {trail : List Reached} {reached : Reached}
  {index : Nat} {address : Address}

/-- The step at a position of the trail evaluated a line, and this stored to a byte. A line that was
skipped stored to none. -/
def Stored (program : Program) (initial : Machine) (trail : List Reached) (address : Address)
    (index : Nat) : Prop :=
  ∃ before after used line, (path initial trail)[index]? = some before ∧
    (path initial trail)[index + 1]? = some after ∧
    (trail.reverse.map Reached.used)[index]? = some used ∧
    program.Step before .proceed line ⟨after, used⟩ ∧ line.StoresTo before address

theorem Stored.lt (stored : Stored program initial trail address index) : index < trail.length := by
  obtain ⟨_, _, used, _, _, _, entry, _⟩ := stored
  simpa using (List.getElem?_eq_some_iff.mp entry).1

theorem getElem?_path_cons (old : index ≤ trail.length) :
    (path initial (reached :: trail))[index]? = (path initial trail)[index]? := by
  rw [path_cons, List.getElem?_append_left (by rw [length_path]; omega)]

theorem getElem?_path_cons_length :
    (path initial (reached :: trail))[trail.length + 1]? = some reached.machine := by
  rw [path_cons, ← length_path, List.getElem?_concat_length]

theorem getElem?_used_cons (old : index < trail.length) :
    ((reached :: trail).reverse.map Reached.used)[index]? =
      (trail.reverse.map Reached.used)[index]? := by
  rw [List.reverse_cons, List.map_append, List.getElem?_append_left (by simpa using old)]

theorem getElem?_used_cons_length :
    ((reached :: trail).reverse.map Reached.used)[trail.length]? = some reached.used := by
  have length : trail.length = (trail.reverse.map Reached.used).length := by simp
  rw [List.reverse_cons, List.map_append, List.map_singleton, length, List.getElem?_concat_length]

/-- The latest step adds its own stores to those of the steps before. -/
theorem stored_cons_iff :
    Stored program initial (reached :: trail) address index ↔
      Stored program initial trail address index ∨ index = trail.length ∧
        ∃ line, program.Step (latest initial trail) .proceed line reached ∧
          line.StoresTo (latest initial trail) address := by
  have earlier (old : index < trail.length) :
      Stored program initial (reached :: trail) address index ↔
        Stored program initial trail address index := by
    unfold Stored
    rw [getElem?_path_cons (Nat.le_of_lt old), getElem?_path_cons old, getElem?_used_cons old]
  constructor
  · intro stored
    have bound := stored.lt
    rw [List.length_cons] at bound
    by_cases old : index < trail.length
    · exact .inl ((earlier old).mp stored)
    · obtain rfl : index = trail.length := by omega
      obtain ⟨before, after, used, line, first, second, entry, step, stores⟩ := stored
      rw [getElem?_path_cons (Nat.le_refl _), getElem?_path_length] at first
      rw [getElem?_path_cons_length] at second
      rw [getElem?_used_cons_length] at entry
      obtain rfl := Option.some.inj first
      obtain rfl := Option.some.inj second
      obtain rfl := Option.some.inj entry
      exact .inr ⟨rfl, line, step, stores⟩
  · intro stored
    rcases stored with old | ⟨rfl, line, step, stores⟩
    · exact (earlier old.lt).mpr old
    · refine ⟨_, _, _, line, ?_, getElem?_path_cons_length, getElem?_used_cons_length, step, stores⟩
      rw [getElem?_path_cons (Nat.le_refl _), getElem?_path_length]

/-- Every byte has the stamp of the last step that stored to it, and the step counter is the length of
the trail. -/
structure Remembers (program : Program) (initial : Machine) (trail : List Reached) : Prop where
  step : (latest initial trail).step = trail.length
  stamps : ∀ address, IsLast (Stored program initial trail address)
    (((latest initial trail).memory.cell? address).map Cell.writtenAt)

theorem remembers_start (zero : initial.step = 0) (blank : initial.memory = .empty) :
    Remembers program initial [] where
  step := zero
  stamps address := by
    have none : initial.memory.cell? address = none := by
      rw [blank]
      exact Std.ExtTreeMap.getElem?_empty
    change IsLast _ ((initial.memory.cell? address).map Cell.writtenAt)
    rw [none]
    intro index stored
    exact absurd stored.lt (Nat.not_lt_zero index)

theorem Remembers.stepped (remembers : Remembers program initial trail) {decision : LineDecision}
    {line : Line} (step : program.Step (latest initial trail) decision line reached) :
    Remembers program initial (reached :: trail) where
  step := by
    change reached.machine.step = trail.length + 1
    rw [step.frame.1, remembers.step]
  stamps address := by
    change IsLast _ ((reached.machine.memory.cell? address).map Cell.writtenAt)
    by_cases now : ∃ line, program.Step (latest initial trail) .proceed line reached ∧
        line.StoresTo (latest initial trail) address
    · obtain ⟨_, evaluated, stores⟩ := id now
      obtain ⟨byte, cell⟩ := evaluated.stamped stores
      rw [cell, remembers.step]
      refine ⟨stored_cons_iff.mpr (.inr ⟨rfl, now⟩), ?_⟩
      intro later after stored
      have bound := stored.lt
      rw [List.length_cons] at bound
      change trail.length < later at after
      omega
    · have same : Stored program initial (reached :: trail) address =
          Stored program initial trail address := by
        funext index
        exact propext (stored_cons_iff.trans (or_iff_left fun latest => now latest.2))
      rw [same, step.cell?_eq]
      · exact remembers.stamps address
      · rintro rfl stores
        exact now ⟨line, step, stores⟩

theorem Follows.remembers (zero : initial.step = 0) (blank : initial.memory = .empty)
    (follows : Follows (fun before reached => ∃ decision line,
      program.Step before decision line reached) initial trail) :
    Remembers program initial trail := by
  induction follows with
  | start => exact remembers_start zero blank
  | step earlier lead ih =>
    obtain ⟨decision, line, step⟩ := lead
    exact ih.stepped step

/-- The step at a position of the history stored to a byte of a slot. -/
def StoredTo (simulation : Simulation) (slot : StackSlot) (index : Nat) : Prop :=
  ∃ address, (address - slot.start).toNat < 8 ∧
    Stored simulation.program simulation.initial simulation.trail address index

theorem isLast_lastWrite {simulation : Simulation}
    (remembers : Remembers simulation.program simulation.initial simulation.trail) (slot : StackSlot) :
    IsLast (simulation.StoredTo slot) (simulation.current.memory.lastWrite slot.start 8) := by
  have last := IsLast.max? (fun offset =>
    remembers.stamps (slot.start + BitVec.ofNat 64 offset)) 8
  have same : simulation.StoredTo slot = fun index => ∃ offset < 8,
      Stored simulation.program simulation.initial simulation.trail
        (slot.start + BitVec.ofNat 64 offset) index := by
    funext index
    apply propext
    constructor
    · intro stored
      obtain ⟨address, inside, stored⟩ := stored
      refine ⟨(address - slot.start).toNat, inside, ?_⟩
      rwa [BitVec.ofNat_toNat, BitVec.setWidth_eq, BitVec.add_comm, BitVec.sub_add_cancel]
    · intro stored
      obtain ⟨offset, inside, stored⟩ := stored
      refine ⟨_, ?_, stored⟩
      rw [BitVec.add_comm, BitVec.add_sub_cancel, BitVec.toNat_ofNat]
      omega
  rw [same]
  exact last

variable {simulation : Simulation} {slot : StackSlot}

theorem exists_address (shown : slot ∈ simulation.stack) :
    ∃ address, slot = simulation.current.stackSlot address := by
  obtain ⟨index, found⟩ := List.mem_iff_getElem?.mp shown
  exact ⟨_, (Machine.getElem?_slotsFrom found).2⟩

theorem rank_eq (shown : slot ∈ simulation.stack) :
    slot.rank = (simulation.current.memory.lastWrite slot.start 8).map
      fun written => simulation.current.step - (written + 1) := by
  obtain ⟨address, rfl⟩ := exists_address shown
  rfl

theorem StoredTo.lt {index : Nat} (stored : simulation.StoredTo slot index) :
    index < simulation.trail.length := by
  obtain ⟨_, _, stored⟩ := stored
  exact stored.lt

/-- The rank of a slot is the number of steps behind the last one that stored to it. -/
theorem Remembers.rank_iff
    (remembers : Remembers simulation.program simulation.initial simulation.trail)
    (shown : slot ∈ simulation.stack) :
    (∀ age, slot.rank = some age ↔ ∃ index, index + age + 1 = simulation.trail.length ∧
      simulation.StoredTo slot index ∧
      ∀ later, index < later → ¬ simulation.StoredTo slot later) ∧
    (slot.rank = none ↔ ∀ index, ¬ simulation.StoredTo slot index) := by
  have isLast := isLast_lastWrite remembers slot
  have counted : simulation.current.step = simulation.trail.length := remembers.step
  rw [rank_eq shown, counted]
  cases found : simulation.current.memory.lastWrite slot.start 8 with
  | none =>
    rw [found] at isLast
    constructor
    · intro age
      constructor
      · intro ranked
        cases ranked
      · intro last
        obtain ⟨index, _, stored, _⟩ := last
        exact absurd stored (isLast index)
    · exact iff_of_true rfl isLast
  | some written =>
    rw [found] at isLast
    have bound := isLast.1.lt
    constructor
    · intro age
      rw [Option.map_some, Option.some.injEq]
      constructor
      · intro ranked
        exact ⟨written, by omega, isLast⟩
      · intro last
        obtain ⟨index, position, again⟩ := last
        obtain rfl := isLast.unique again
        omega
    · constructor
      · intro ranked
        cases ranked
      · intro never
        exact absurd isLast.1 (never written)

/-- The view of the stack has a slot for every eight bytes from the stack pointer up to the stack base,
at most 512 of them, and no address wraps around. Each has the quad in its bytes. In a history without
edits its rank is the age of the last step that stored to one of them. -/
theorem stack_view (simulation : Simulation) :
    simulation.stack.length =
      (if simulation.current.stackPointer < simulation.current.stackBase then
        min 512 ((simulation.current.stackBase.toNat - simulation.current.stackPointer.toNat + 7) / 8)
      else 0) ∧
    (∀ index slot, simulation.stack[index]? = some slot →
      slot.start.toNat = simulation.current.stackPointer.toNat + 8 * index ∧
      slot.value.toNat = ofLittleEndian (simulation.current.memory.read slot.start 8)) ∧
    ∀ program stackBase limits, program.Reachable →
      Reachable program (Machine.initial stackBase) limits false simulation →
        ∀ slot ∈ simulation.stack,
          (∀ age, slot.rank = some age ↔ ∃ index, index + age + 1 = simulation.trail.length ∧
            simulation.StoredTo slot index ∧
            ∀ later, index < later → ¬ simulation.StoredTo slot later) ∧
          (slot.rank = none ↔ ∀ index, ¬ simulation.StoredTo slot index) := by
  refine ⟨?length, ?slots, ?ranks⟩
  case length =>
    rw [stack, Machine.length_slotsFrom, maxStackSlots]
    split
    · rfl
    · rename_i above
      have reached := BitVec.not_lt.mp above
      rw [BitVec.le_def] at reached
      omega
  case slots =>
    intro index slot found
    obtain ⟨below, rfl⟩ := Machine.getElem?_slotsFrom found
    refine ⟨?_, Machine.toNat_value_stackSlot _ _⟩
    have bound := simulation.current.stackBase.isLt
    change (BitVec.ofNat 64 _).toNat = _
    rw [BitVec.toNat_ofNat, Nat.mod_eq_of_lt (by omega)]
  case ranks =>
    intro program stackBase limits built reached slot shown
    obtain ⟨initial, _, unedited⟩ := reached.traced built.sound
    have remembers := (unedited rfl).remembers rfl rfl
    rw [← initial] at remembers
    exact remembers.rank_iff shown

/-- A push, a store of the byte below it, a push that is skipped, and a stack pointer that is moved
between the slots. The last step is taken back and made again. -/
theorem stack_view_unaligned :
    let program := (((Program.empty.edit (.push "pushq $5")).edit (.push "movb $1, -1(%rsp)")).edit
      (.push "pushq $7")).edit (.push "subq $9, %rsp")
    let limits : RunLimits := ⟨5, 0x8000⟩
    let observer : Observer Unit :=
      { Observer.silent Unit with
        onLine := fun line _ state => (if line.number = 2 then .skip else .proceed, state) }
    let simulation := (((start program limits).perform (.run observer ())).perform
      .stepBackward).perform .stepForward
    simulation.stack.map StackSlot.rank = [none, some 2, some 3] ∧
      ∀ slot ∈ simulation.stack, slot.rank = some 2 →
        simulation.StoredTo slot 1 ∧ ∀ later, 1 < later → ¬ simulation.StoredTo slot later := by
  intro program limits observer simulation
  have built : program.Reachable := .edited (.edited (.edited (.edited .start _) _) _) _
  have reached : Reachable program (Machine.initial 0x8000) limits false simulation :=
    .performed (.performed (.performed .start (.run observer ())) .stepBackward) .stepForward
  have length : simulation.trail.length = 4 := by decide +kernel
  refine ⟨by decide +kernel, ?_⟩
  intro slot shown ranked
  obtain ⟨index, position, stored, last⟩ :=
    (((stack_view simulation).2.2 _ _ _ built reached slot shown).1 2).mp ranked
  obtain rfl : index = 1 := by omega
  exact ⟨stored, last⟩

end Simulation

end AsmLab
