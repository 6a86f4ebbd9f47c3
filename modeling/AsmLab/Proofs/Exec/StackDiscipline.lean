import AsmLab.Proofs.Exec.Totality
import AsmLab.Proofs.Machine.ReadBack

/-! The stack as a stack: what is pushed is popped again in reverse order, and a return goes behind its
call, however pushes and calls are nested in each other. -/
namespace AsmLab

namespace Machine

theorem stackPointer_setStackPointer (machine : Machine) (address : Address) :
    (machine.setStackPointer address).stackPointer = address :=
  (RegisterFile.get_set ..).trans (if_pos rfl)

/-- One quad more is on the stack. -/
structure Pushed (value : Int) (before after : Machine) : Prop where
  stackPointer : after.stackPointer = before.stackPointer - 8
  stackBase : after.stackBase = before.stackBase
  flags : after.flags = before.flags
  memory : after.memory = (before.store (before.stackPointer - 8) .quad value).memory

/-- One quad less is on the stack. -/
structure Popped (before after : Machine) : Prop where
  stackPointer : after.stackPointer = before.stackPointer + 8
  stackBase : after.stackBase = before.stackBase
  flags : after.flags = before.flags
  memory : after.memory = before.memory

/-- The stack is as it was, and memory differs at most in some bytes right below it. -/
structure Balanced (count : Nat) (before after : Machine) : Prop where
  stackPointer : after.stackPointer = before.stackPointer
  stackBase : after.stackBase = before.stackBase
  callDepth : after.callDepth = before.callDepth
  flags : after.flags = before.flags
  memory : ∀ address : Address,
    ¬ (before.stackPointer.toNat - count ≤ address.toNat ∧
      address.toNat < before.stackPointer.toNat) →
    after.memory.cell? address = before.memory.cell? address

theorem Balanced.refl (machine : Machine) : machine.Balanced 0 machine :=
  ⟨rfl, rfl, rfl, rfl, fun _ _ => rfl⟩

/-- What a push has stored is on the stack as long as its bytes are and the stack ends there. -/
theorem Pushed.readMemory_eq {before entered leaving : Machine} {value : Int}
    (pushed : before.Pushed value entered)
    (bytes : leaving.memory.read leaving.stackPointer Size.quad.bytes =
      entered.memory.read entered.stackPointer Size.quad.bytes) :
    leaving.readMemory leaving.stackPointer .quad = Size.quad.truncate value := by
  rw [readMemory, bytes, pushed.memory, pushed.stackPointer]
  exact before.readMemory_store _ .quad value

section Slot

variable {before entered leaving after : Machine} {value : Int} {count : Nat}
  (pushed : before.Pushed value entered) (inside : entered.Balanced count leaving)
  (room : 8 + count ≤ before.stackPointer.toNat)
include pushed room

theorem Pushed.toNat_stackPointer :
    entered.stackPointer.toNat = before.stackPointer.toNat - 8 := by
  rw [pushed.stackPointer]
  have : 8 ≤ before.stackPointer.toNat := by omega
  bv_omega

include inside

/-- What was pushed is still on the stack when the stack is as it was after the push. -/
theorem Balanced.readMemory_slot :
    leaving.readMemory leaving.stackPointer .quad = Size.quad.truncate value := by
  have bottom := pushed.toNat_stackPointer room
  have kept : leaving.memory.read entered.stackPointer Size.quad.bytes =
      entered.memory.read entered.stackPointer Size.quad.bytes := by
    refine Memory.read_congr _ fun index bound => inside.memory _ ?_
    have small : index < 8 := bound
    have place : (entered.stackPointer + BitVec.ofNat 64 index).toNat =
        entered.stackPointer.toNat + index := by
      have := before.stackPointer.isLt
      bv_omega
    omega
  exact pushed.readMemory_eq (by rw [inside.stackPointer, kept])

theorem Balanced.below_base (held : before.stackPointer ≤ before.stackBase) :
    leaving.stackPointer < leaving.stackBase := by
  have bottom := pushed.toNat_stackPointer room
  rw [inside.stackPointer, inside.stackBase, pushed.stackBase]
  bv_omega

/-- A push, a part that leaves the stack as it was, and a pop. -/
theorem Balanced.around (popped : leaving.Popped after)
    (callDepth : after.callDepth = before.callDepth) : before.Balanced (8 + count) after where
  stackPointer := by
    rw [popped.stackPointer, inside.stackPointer, pushed.stackPointer, BitVec.sub_add_cancel]
  stackBase := popped.stackBase.trans (inside.stackBase.trans pushed.stackBase)
  callDepth := callDepth
  flags := popped.flags.trans (inside.flags.trans pushed.flags)
  memory address outside := by
    have bottom := pushed.toNat_stackPointer room
    have beside : ¬ (address - (before.stackPointer - 8)).toNat < Size.quad.bytes := by
      rw [← pushed.stackPointer]
      intro covered
      have small : (address - entered.stackPointer).toNat < 8 := covered
      have := before.stackPointer.isLt
      bv_omega
    rw [popped.memory, inside.memory address (by omega), pushed.memory]
    exact before.cell?_store _ .quad value beside

end Slot

end Machine

/-- The number of a line that is near enough is read back as it was pushed. -/
theorem Size.truncate_return {line : Nat} (near : line < 2 ^ 63 - 1) :
    Size.quad.truncate (line + 1) = (line + 1 : Nat) := by
  have low : -(2 : Int) ^ 63 ≤ line + 1 := by omega
  have high : (line : Int) + 1 < 2 ^ 63 := by omega
  exact Size.quad.truncate_of_range low high

/-- What was read as a quad is a signed number of 64 bits, unless it is the line of a label. -/
theorem Operand.truncate_read {operand : Operand LabelRef} {machine : Machine} {labels : LabelTable}
    {value : Int} (unlabelled : ∀ target, operand ≠ .label target)
    (read : operand.read .quad machine labels = .ok value) : Size.quad.truncate value = value := by
  cases operand with
  | immediate constant =>
    obtain rfl := Except.ok.inj read
    exact Size.quad.truncate_truncate _
  | register register =>
    obtain rfl := Except.ok.inj read
    exact machine.registers.truncate_readSigned register
  | memory reference =>
    obtain rfl := Except.ok.inj read
    exact Size.quad.truncate_truncate _
  | label target => exact absurd rfl (unlabelled target)

/-- The instruction of a line, its widths left aside. -/
def Line.Holds (line : Line) (opcode : Opcode) (operands : Operands LabelRef) : Prop :=
  ∃ body, line.instruction? = some body ∧ body.mnemonic.opcode = opcode ∧ body.operands = operands

namespace Line.Holds

variable {line : Line} {machine : Machine} {labels : LabelTable}

theorem unique {first second : Opcode} {left right : Operands LabelRef}
    (one : line.Holds first left) (other : line.Holds second right) :
    first = second ∧ left = right := by
  obtain ⟨body, found, rfl, rfl⟩ := one
  obtain ⟨_, again, rfl, rfl⟩ := other
  obtain rfl := Option.some.inj (found.symm.trans again)
  exact ⟨rfl, rfl⟩

theorem evaluate_push {source : Operand LabelRef} (pushes : line.Holds .push (.unary source))
    (unlabelled : ∀ target, source ≠ .label target) (machine : Machine) (labels : LabelTable) :
    ∃ value entered, source.read .quad machine labels = .ok value ∧
      line.evaluate machine labels = .ok entered ∧ machine.Pushed value entered ∧
      entered.callDepth = machine.callDepth := by
  obtain ⟨body, found, opcode, shape⟩ := pushes
  obtain ⟨value, read⟩ : ∃ value, source.read .quad machine labels = .ok value := by
    cases source with
    | label target => exact absurd rfl (unlabelled target)
    | _ => exact ⟨_, rfl⟩
  refine ⟨value, (machine.push value).advance.countStep, read, ?_, ?_, rfl⟩
  · simp [Line.evaluate, found, Instruction.execute, opcode, Instruction.pushOperand,
      Instruction.unary, shape, read, bind, Except.bind, pure, Except.pure]
  · exact ⟨machine.stackPointer_setStackPointer _, rfl, rfl, rfl⟩

theorem evaluate_pop {into : Gpr} (pops : line.Holds .pop (.unary (.register into.full)))
    (apart : into ≠ .rsp) (machine : Machine) (labels : LabelTable) :
    ∃ after, line.evaluate machine labels = .ok after ∧ machine.Popped after ∧
      after.callDepth = machine.callDepth ∧
      after.registers.readSigned into.full = machine.readMemory machine.stackPointer .quad := by
  obtain ⟨body, found, opcode, shape⟩ := pops
  let value := machine.readMemory machine.stackPointer .quad
  let raised := machine.setStackPointer (machine.stackPointer + 8)
  refine ⟨(raised.setRegister into.full value).advance.countStep, ?_, ⟨?_, rfl, rfl, rfl⟩, rfl, ?_⟩
  · simp only [Line.evaluate, found, Instruction.execute, opcode, Instruction.popOperand,
      Instruction.unary, shape, bind, Except.bind]
    rfl
  · have kept := RegisterFile.get_set raised.registers into .rsp
      (splice (raised.registers.get into) 0 (BitVec.ofInt 64 value))
    rw [if_neg apart] at kept
    exact kept.trans (machine.stackPointer_setStackPointer _)
  · have delivered := raised.registers.view_setView into.full (BitVec.ofInt 64 value)
    exact (congrArg BitVec.toInt delivered).trans <|
      (Size.quad.truncate_eq value).symm.trans (Size.quad.truncate_truncate _)

theorem evaluate_call {target : LabelRef} {destination : Nat}
    (calls : line.Holds .call (.unary (.label target)))
    (defined : labels.line? target.id = some destination) (machine : Machine) :
    ∃ entered, line.evaluate machine labels = .ok entered ∧
      machine.Pushed (machine.rip + 1) entered ∧ entered.callDepth = machine.callDepth + 1 := by
  obtain ⟨body, found, opcode, shape⟩ := calls
  refine ⟨(((machine.push (machine.rip + 1)).adjustDepth 1).jump destination).countStep, ?_, ?_, rfl⟩
  · simp [Line.evaluate, found, Instruction.execute, opcode, Instruction.enter, Instruction.target,
      Instruction.unary, shape, Operand.read, defined, bind, Except.bind, pure, Except.pure]
  · exact ⟨machine.stackPointer_setStackPointer _, rfl, rfl, rfl⟩

theorem evaluate_ret {operands : Operands LabelRef} {destination : Nat}
    (returns : line.Holds .ret operands) (called : 0 < machine.callDepth)
    (held : machine.stackPointer < machine.stackBase)
    (popped : machine.readMemory machine.stackPointer .quad = destination) (labels : LabelTable) :
    ∃ after, line.evaluate machine labels = .ok after ∧ machine.Popped after ∧
      after.callDepth = machine.callDepth - 1 ∧ after.rip = destination := by
  obtain ⟨body, found, opcode, shape⟩ := returns
  let raised := machine.setStackPointer (machine.stackPointer + 8)
  have behind : machine.returnLine = .ok destination := by
    rw [Machine.returnLine, if_neg (BitVec.not_le.mpr held), popped]
  refine ⟨((raised.adjustDepth (-1)).jump destination).countStep, ?_, ⟨?_, rfl, rfl, rfl⟩, rfl, rfl⟩
  · simp only [Line.evaluate, found, Instruction.execute, opcode, Machine.leave,
      if_neg (Int.not_le.mpr called), behind, bind, Except.bind]
    rfl
  · exact machine.stackPointer_setStackPointer _

end Line.Holds

/-- The lines one after the other, wherever the program counter goes. -/
def Line.evaluateAll (labels : LabelTable) (lines : List Line) (machine : Machine) :
    Except Fault Machine :=
  lines.foldlM (fun machine line => line.evaluate machine labels) machine

namespace Line

variable {labels : LabelTable} {line : Line} {lines more : List Line} {machine next : Machine}

theorem evaluateAll_cons (evaluates : line.evaluate machine labels = .ok next) :
    evaluateAll labels (line :: lines) machine = evaluateAll labels lines next := by
  rw [evaluateAll, List.foldlM_cons, evaluates]
  rfl

theorem evaluateAll_append (evaluates : evaluateAll labels lines machine = .ok next) :
    evaluateAll labels (lines ++ more) machine = evaluateAll labels more next := by
  rw [evaluateAll] at evaluates
  rw [evaluateAll, List.foldlM_append, evaluates]
  rfl

end Line

/-- A line that puts a quad on the stack and the line that takes it off again. -/
structure StackItem where
  opening : Line
  closing : Line

namespace StackItem

/-- A push of anything but a label with a pop into a register, or a call with a return. -/
inductive Paired (labels : LabelTable) : StackItem → Prop
  | pushed {opening closing : Line} {source : Operand LabelRef} {into : Gpr}
      (pushes : opening.Holds .push (.unary source)) (unlabelled : ∀ target, source ≠ .label target)
      (pops : closing.Holds .pop (.unary (.register into.full))) (apart : into ≠ .rsp) :
      Paired labels ⟨opening, closing⟩
  | called {opening closing : Line} {target : LabelRef} {destination : Nat}
      {operands : Operands LabelRef} (calls : opening.Holds .call (.unary (.label target)))
      (defined : labels.line? target.id = some destination)
      (returns : closing.Holds .ret operands) : Paired labels ⟨opening, closing⟩

def Calls (item : StackItem) : Prop :=
  ∃ operands, item.opening.Holds .call operands

/-- The line behind each call, when the call is made, has a number that a signed quad can hold. -/
def CallsNear (labels : LabelTable) : List StackItem → Machine → Prop
  | [], _ => True
  | item :: rest, machine =>
    (item.Calls → machine.rip < 2 ^ 63 - 1) ∧
      ∀ entered, item.opening.evaluate machine labels = .ok entered → CallsNear labels rest entered

end StackItem

/-- The machine around the two lines of an item. -/
structure StackVisit where
  item : StackItem
  before : Machine
  entered : Machine
  leaving : Machine
  after : Machine

/-- The pop delivers what the push has read, and the return goes behind the call. -/
structure StackVisit.Returned (labels : LabelTable) (visit : StackVisit) : Prop where
  popped (source : Operand LabelRef) (into : Gpr) :
    visit.item.opening.Holds .push (.unary source) →
    visit.item.closing.Holds .pop (.unary (.register into.full)) →
    source.read .quad visit.before labels = .ok (visit.after.registers.readSigned into.full)
  returned (operands : Operands LabelRef) : visit.item.closing.Holds .ret operands →
    visit.after.rip = visit.before.rip + 1

/-- Every item is closed when all that was opened after it is. -/
inductive Nested (labels : LabelTable) : Machine → List StackVisit → Machine → Prop
  | nil (machine : Machine) : Nested labels machine [] machine
  | cons {visit : StackVisit} {visits : List StackVisit}
      (opens : visit.item.opening.evaluate visit.before labels = .ok visit.entered)
      (inner : Nested labels visit.entered visits visit.leaving)
      (closes : visit.item.closing.evaluate visit.leaving labels = .ok visit.after) :
      Nested labels visit.before (visit :: visits) visit.after

theorem Nested.evaluateAll {labels : LabelTable} {machine last : Machine}
    {visits : List StackVisit} (nested : Nested labels machine visits last) :
    Line.evaluateAll labels (visits.map (·.item.opening) ++ (visits.map (·.item.closing)).reverse)
      machine = .ok last := by
  induction nested with
  | nil machine => rfl
  | @cons visit visits opens inner closes ih =>
    rw [List.map_cons, List.map_cons, List.reverse_cons, List.cons_append, ← List.append_assoc,
      Line.evaluateAll_cons opens, Line.evaluateAll_append ih, Line.evaluateAll_cons closes]
    rfl

namespace StackItem

variable {labels : LabelTable} {machine : Machine}

/-- The closing line undoes the opening one if the stack is as it was in between. -/
theorem Paired.exists_visit {item : StackItem} (paired : item.Paired labels) {count : Nat}
    (depth : 0 ≤ machine.callDepth) (room : 8 + count ≤ machine.stackPointer.toNat)
    (held : machine.stackPointer ≤ machine.stackBase)
    (near : item.Calls → machine.rip < 2 ^ 63 - 1) :
    ∃ value entered, item.opening.evaluate machine labels = .ok entered ∧
      machine.Pushed value entered ∧ 0 ≤ entered.callDepth ∧
      ∀ leaving, entered.Balanced count leaving →
        ∃ after, item.closing.evaluate leaving labels = .ok after ∧
          machine.Balanced (8 + count) after ∧
          StackVisit.Returned labels ⟨item, machine, entered, leaving, after⟩ := by
  cases paired with
  | @pushed opening closing source into pushes unlabelled pops apart =>
    obtain ⟨value, entered, read, opens, pushed, level⟩ :=
      pushes.evaluate_push unlabelled machine labels
    refine ⟨value, entered, opens, pushed, level.symm ▸ depth, fun leaving inside => ?_⟩
    obtain ⟨after, closes, popped, still, delivered⟩ := pops.evaluate_pop apart leaving labels
    have restored : after.callDepth = machine.callDepth := by
      rw [still, inside.callDepth, level]
    refine ⟨after, closes, inside.around pushed room popped restored, ?_, ?_⟩
    · intro other target pushesOther popsTarget
      obtain ⟨-, same⟩ := pushes.unique pushesOther
      obtain ⟨-, place⟩ := pops.unique popsTarget
      obtain rfl : source = other := Operands.unary.inj same
      obtain rfl : into = target := by
        cases Operand.register.inj (Operands.unary.inj place)
        rfl
      rw [read, delivered, inside.readMemory_slot pushed room, Operand.truncate_read unlabelled read]
    · intro operands returns
      cases (pops.unique returns).1
  | @called opening closing target destination operands calls defined returns =>
    obtain ⟨entered, opens, pushed, deeper⟩ := calls.evaluate_call defined machine
    refine ⟨_, entered, opens, pushed, by omega, fun leaving inside => ?_⟩
    have slot : leaving.readMemory leaving.stackPointer .quad = (machine.rip + 1 : Nat) :=
      (inside.readMemory_slot pushed room).trans (Size.truncate_return (near ⟨_, calls⟩))
    have called : 0 < leaving.callDepth := by
      rw [inside.callDepth]
      omega
    obtain ⟨after, closes, popped, shallower, reached⟩ :=
      returns.evaluate_ret called (inside.below_base pushed room held) slot labels
    have restored : after.callDepth = machine.callDepth := by
      rw [shallower, inside.callDepth, deeper, Int.add_sub_cancel]
    refine ⟨after, closes, inside.around pushed room popped restored, ?_, ?_⟩
    · intro other target pushes
      cases (calls.unique pushes).1
    · exact fun _ _ => reached

/-- The items are opened one in the other and closed from the inside out. -/
theorem exists_nested {items : List StackItem} (paired : ∀ item ∈ items, item.Paired labels)
    (depth : 0 ≤ machine.callDepth) (room : 8 * items.length ≤ machine.stackPointer.toNat)
    (held : machine.stackPointer ≤ machine.stackBase) (near : CallsNear labels items machine) :
    ∃ visits last, visits.map StackVisit.item = items ∧ Nested labels machine visits last ∧
      (∀ visit ∈ visits, visit.Returned labels) ∧ machine.Balanced (8 * items.length) last := by
  induction items generalizing machine with
  | nil =>
    exact ⟨[], machine, rfl, .nil machine, fun _ member => absurd member List.not_mem_nil,
      .refl machine⟩
  | cons item rest ih =>
    rw [List.length_cons, Nat.mul_succ, Nat.add_comm] at room ⊢
    obtain ⟨called, later⟩ := near
    obtain ⟨value, entered, opens, pushed, deeper, closes⟩ :=
      (paired item List.mem_cons_self).exists_visit depth room held called
    have bottom := pushed.toNat_stackPointer room
    have below : entered.stackPointer ≤ entered.stackBase := by
      rw [pushed.stackBase]
      bv_omega
    obtain ⟨visits, leaving, rfl, inner, returned, balanced⟩ :=
      ih (fun other member => paired other (List.mem_cons_of_mem item member)) deeper
        (by omega) below (later entered opens)
    obtain ⟨after, closed, around, visited⟩ := closes leaving balanced
    let visit : StackVisit := ⟨item, machine, entered, leaving, after⟩
    have nested : Nested labels visit.before (visit :: visits) visit.after :=
      .cons opens inner closed
    exact ⟨visit :: visits, after, rfl, nested, List.forall_mem_cons.mpr ⟨visited, returned⟩,
      around⟩

/-- Items that are closed in reverse order never fault, deliver what they have put on the stack and
leave the stack as it was. -/
theorem evaluateAll_paired {items : List StackItem} (paired : ∀ item ∈ items, item.Paired labels)
    (depth : 0 ≤ machine.callDepth) (room : 8 * items.length ≤ machine.stackPointer.toNat)
    (held : machine.stackPointer ≤ machine.stackBase) (near : CallsNear labels items machine) :
    ∃ visits last, visits.map StackVisit.item = items ∧ Nested labels machine visits last ∧
      Line.evaluateAll labels (items.map opening ++ (items.map closing).reverse) machine =
        .ok last ∧
      (∀ visit ∈ visits, visit.Returned labels) ∧ machine.Balanced (8 * items.length) last := by
  obtain ⟨visits, last, rfl, nested, returned, balanced⟩ :=
    exists_nested paired depth room held near
  refine ⟨visits, last, rfl, nested, ?_, returned, balanced⟩
  rw [List.map_map, List.map_map]
  exact nested.evaluateAll

/-- The stack pointer itself is pushed, a call nests in that, and the stack has no room for more. -/
theorem evaluateAll_paired_call :
    let single (opcode : Opcode) (operands : Operands LabelRef) : Line :=
      ⟨0, .instruction ⟨.uniform opcode .quad, operands⟩, none, false⟩
    let labels : LabelTable := ⟨[⟨"f", some 7⟩]⟩
    let items : List StackItem :=
      [⟨single .push (.unary (.register Gpr.rsp.full)),
          single .pop (.unary (.register Gpr.rcx.full))⟩,
        ⟨single .call (.unary (.label ⟨⟨0⟩, "f"⟩)), single .ret .nullary⟩]
    let machine := Machine.initial 16
    (∀ item ∈ items, item.Paired labels) ∧ CallsNear labels items machine ∧
      ∃ last, Line.evaluateAll labels (items.map opening ++ (items.map closing).reverse) machine =
        .ok last ∧ machine.Balanced 16 last := by
  intro single labels items machine
  have paired : ∀ item ∈ items, item.Paired labels := by
    refine List.forall_mem_cons.mpr ⟨?_, List.forall_mem_singleton.mpr ?_⟩
    · exact .pushed ⟨_, rfl, rfl, rfl⟩ nofun ⟨_, rfl, rfl, rfl⟩ (by decide)
    · exact .called ⟨_, rfl, rfl, rfl⟩ rfl ⟨_, rfl, rfl, rfl⟩
  have near : CallsNear labels items machine := by
    refine ⟨fun _ => by decide, fun entered run => ⟨fun _ => ?_, fun _ _ => trivial⟩⟩
    obtain rfl := Except.ok.inj run
    decide
  obtain ⟨visits, last, -, -, evaluates, -, balanced⟩ :=
    evaluateAll_paired paired (by decide) (by decide) (by decide) near
  exact ⟨paired, near, last, evaluates, balanced⟩

end StackItem

end AsmLab
