import AsmLab.Proofs.Exec.FaultCases

/-! Where control goes after a line, and what every line leaves alone: the stack base, and the step
count but for the line itself. -/
namespace AsmLab

open Source (exists_of_bind_ok)

/-- What a machine knows about the course of its program. -/
structure Control where
  rip : Nat
  callDepth : Int
  step : Nat
  stackBase : Address

namespace Control

/-- On to the next line. -/
def next (control : Control) : Control :=
  { control with rip := control.rip + 1 }

end Control

namespace Machine

def control (machine : Machine) : Control :=
  ⟨machine.rip, machine.callDepth, machine.step, machine.stackBase⟩

variable (machine : Machine)

@[simp]
theorem control_advance : machine.advance.control = machine.control.next := rfl

@[simp]
theorem control_complete (flags : FlagUpdate) :
    (machine.complete flags).control = machine.control.next := rfl

end Machine

theorem Operand.control_write {operand : Operand LabelRef} {size : Size} {value : Int}
    {machine stored : Machine} (wrote : operand.write size value machine = .ok stored) :
    stored.control = machine.control := by
  cases operand with
  | immediate _ => cases wrote
  | register _ => cases wrote; rfl
  | memory _ => cases wrote; rfl
  | label _ => cases wrote

/-- An instruction that ends with storing its result and going on. -/
theorem Operand.control_of_write {operand : Operand LabelRef} {size : Size} {value : Int}
    {machine after : Machine} {goOn : Machine → Machine}
    (next : ∀ stored, (goOn stored).control = stored.control.next)
    (run : (do return goOn (← operand.write size value machine)) = Except.ok after) :
    after.control = machine.control.next := by
  obtain ⟨stored, wrote, run⟩ := exists_of_bind_ok run
  obtain rfl := Except.ok.inj run
  rw [next, control_write wrote]

namespace Instruction

variable {instruction : Instruction LabelRef} {machine after : Machine} {labels : LabelTable}

theorem combine_control {operation : Size → Int → Int → Alu.Result}
    (run : instruction.combine machine labels operation = .ok after) :
    after.control = machine.control.next := by
  obtain ⟨⟨source, destination⟩, _, run⟩ := exists_of_bind_ok run
  obtain ⟨first, _, run⟩ := exists_of_bind_ok run
  obtain ⟨second, _, run⟩ := exists_of_bind_ok run
  exact Operand.control_of_write (fun stored => stored.control_complete _) run

theorem compare_control {operation : Size → Int → Int → Alu.Result}
    (run : instruction.compare machine labels operation = .ok after) :
    after.control = machine.control.next := by
  obtain ⟨⟨source, destination⟩, _, run⟩ := exists_of_bind_ok run
  obtain ⟨first, _, run⟩ := exists_of_bind_ok run
  obtain ⟨second, _, run⟩ := exists_of_bind_ok run
  obtain rfl := Except.ok.inj run
  exact machine.control_complete _

theorem modify_control {operation : Size → Int → Alu.Result}
    (run : instruction.modify machine labels operation = .ok after) :
    after.control = machine.control.next := by
  obtain ⟨destination, _, run⟩ := exists_of_bind_ok run
  obtain ⟨value, _, run⟩ := exists_of_bind_ok run
  exact Operand.control_of_write (fun stored => stored.control_complete _) run

theorem shift_control {operation : Size → Int → Nat → Alu.Result}
    (run : instruction.shift machine labels operation = .ok after) :
    after.control = machine.control.next := by
  obtain ⟨⟨source, destination⟩, _, run⟩ := exists_of_bind_ok run
  obtain ⟨count, _, run⟩ := exists_of_bind_ok run
  obtain ⟨value, _, run⟩ := exists_of_bind_ok run
  exact Operand.control_of_write (fun stored => stored.control_complete _) run

theorem move_control {width : Size} {convert : Int → Int}
    (run : instruction.move machine labels width convert = .ok after) :
    after.control = machine.control.next := by
  obtain ⟨⟨source, destination⟩, _, run⟩ := exists_of_bind_ok run
  obtain ⟨value, _, run⟩ := exists_of_bind_ok run
  exact Operand.control_of_write Machine.control_advance run

theorem loadAddress_control (run : instruction.loadAddress machine = .ok after) :
    after.control = machine.control.next := by
  obtain ⟨⟨source, destination⟩, _, run⟩ := exists_of_bind_ok run
  cases source with
  | memory reference =>
    exact Operand.control_of_write Machine.control_advance run
  | immediate _ => cases run
  | register _ => cases run
  | label _ => cases run

theorem divide_control (run : instruction.divide machine labels = .ok after) :
    after.control = machine.control.next := by
  obtain ⟨operand, _, run⟩ := exists_of_bind_ok run
  obtain ⟨divisor, _, run⟩ := exists_of_bind_ok run
  by_cases zero : divisor = 0
  · rw [if_pos zero] at run
    cases run
  · rw [if_neg zero] at run
    simp only at run
    split at run
    · cases run
    · obtain rfl := Except.ok.inj run
      rfl

theorem pushOperand_control (run : instruction.pushOperand machine labels = .ok after) :
    after.control = machine.control.next := by
  obtain ⟨operand, _, run⟩ := exists_of_bind_ok run
  obtain ⟨value, _, run⟩ := exists_of_bind_ok run
  obtain rfl := Except.ok.inj run
  rfl

theorem popOperand_control (run : instruction.popOperand machine = .ok after) :
    after.control = machine.control.next := by
  obtain ⟨destination, _, run⟩ := exists_of_bind_ok run
  simp only at run
  have popped := Operand.control_of_write Machine.control_advance run
  exact popped

theorem setIf_control {condition : Bool} (run : instruction.setIf machine condition = .ok after) :
    after.control = machine.control.next := by
  obtain ⟨destination, _, run⟩ := exists_of_bind_ok run
  exact Operand.control_of_write Machine.control_advance run

variable (instruction machine labels) in
/-- The ways on from an instruction that does not fault. -/
inductive Transfers (after : Machine) : Prop where
  | next (untaken : instruction.mnemonic.opcode.branches machine.flags = false)
      (inside : instruction.mnemonic.opcode ≠ .ret)
      (control : after.control = machine.control.next)
  | branch {line : Nat} (taken : instruction.mnemonic.opcode.branches machine.flags = true)
      (found : instruction.target machine labels = .ok line)
      (control : after.control = { machine.control with
        rip := line
        callDepth := machine.callDepth + if instruction.mnemonic.opcode = .call then 1 else 0 })
  | leave {line : Nat} (returns : instruction.mnemonic.opcode = .ret)
      (called : 0 < machine.callDepth) (found : machine.returnLine = .ok line)
      (control : after.control = { machine.control with
        rip := line, callDepth := machine.callDepth - 1 })
  | finish (returns : instruction.mnemonic.opcode = .ret) (top : machine.callDepth ≤ 0)
      (control : after.control = { machine.control with callDepth := machine.callDepth - 1 })

/-- Only calls and returns change the depth, and nothing else moves than the counter. -/
theorem Transfers.frame (transfers : instruction.Transfers machine labels after) :
    after.step = machine.step ∧ after.stackBase = machine.stackBase ∧
      machine.callDepth - 1 ≤ after.callDepth := by
  have of_control {control : Control} (same : after.control = control)
      (step : control.step = machine.step) (stackBase : control.stackBase = machine.stackBase)
      (depth : machine.callDepth - 1 ≤ control.callDepth) :
      after.step = machine.step ∧ after.stackBase = machine.stackBase ∧
        machine.callDepth - 1 ≤ after.callDepth := by
    subst same
    exact ⟨step, stackBase, depth⟩
  cases transfers with
  | next _ _ control => exact of_control control rfl rfl (Int.sub_le_self _ Int.one_nonneg)
  | branch _ _ control =>
    refine of_control control rfl rfl ?_
    simp only
    split <;> omega
  | leave _ _ _ control => exact of_control control rfl rfl le_rfl
  | finish _ _ control => exact of_control control rfl rfl le_rfl

theorem branchIf_transfers {condition : Bool} (jumps : instruction.mnemonic.opcode ≠ .call)
    (inside : instruction.mnemonic.opcode ≠ .ret)
    (taken : instruction.mnemonic.opcode.branches machine.flags = condition)
    (run : instruction.branchIf machine labels condition = .ok after) :
    instruction.Transfers machine labels after := by
  cases condition with
  | false =>
    obtain rfl := Except.ok.inj run
    exact .next taken inside rfl
  | true =>
    obtain ⟨line, found, run⟩ := exists_of_bind_ok run
    obtain rfl := Except.ok.inj run
    exact .branch taken found (by rw [if_neg jumps, Int.add_zero]; rfl)

theorem enter_transfers (calls : instruction.mnemonic.opcode = .call)
    (run : instruction.enter machine labels = .ok after) :
    instruction.Transfers machine labels after := by
  obtain ⟨line, found, run⟩ := exists_of_bind_ok run
  obtain rfl := Except.ok.inj run
  exact .branch (by rw [calls]; rfl) found (by rw [if_pos calls]; rfl)

theorem leave_transfers (returns : instruction.mnemonic.opcode = .ret)
    (run : machine.leave = .ok after) : instruction.Transfers machine labels after := by
  unfold Machine.leave at run
  by_cases top : machine.callDepth ≤ 0
  · rw [if_pos top] at run
    obtain rfl := Except.ok.inj run
    exact .finish returns top rfl
  · rw [if_neg top] at run
    obtain ⟨line, found, run⟩ := exists_of_bind_ok run
    obtain rfl := Except.ok.inj run
    exact .leave returns (Int.not_le.mp top) found rfl

theorem exists_target
    (matched : (instruction.operands.map LabelRef.name).Match instruction.mnemonic.slots)
    (branches : instruction.mnemonic.opcode.branches machine.flags = true) :
    ∃ target, instruction.operands = .unary (.label target) := by
  obtain ⟨⟨opcode, size, sourceSize⟩, operands⟩ := instruction
  cases opcode with
  | jmp | call | jumpIf =>
    obtain ⟨operand, rfl, admitted⟩ := matched.exists_unary
    obtain ⟨target, rfl⟩ := Operand.exists_of_admits_target admitted
    exact ⟨target, rfl⟩
  | _ => cases branches

theorem target_ok {target : LabelRef} {line : Nat}
    (shape : instruction.operands = .unary (.label target))
    (found : instruction.target machine labels = .ok line) :
    labels.line? target.id = some line := by
  rw [target_eq shape] at found
  cases defined : labels.line? target.id with
  | none =>
    rw [defined] at found
    cases found
  | some other =>
    rw [defined] at found
    exact congrArg some (Except.ok.inj found)

/-- A branch that is taken goes where its target is. -/
theorem execute_taken (taken : instruction.mnemonic.opcode.branches machine.flags = true)
    (labels : LabelTable) :
    ∃ goOn : Nat → Machine, (∀ line, (goOn line).rip = line) ∧
      instruction.execute machine labels = (instruction.target machine labels).map goOn := by
  obtain ⟨⟨opcode, size, sourceSize⟩, operands⟩ := instruction
  have jump : ∃ goOn : Nat → Machine, (∀ line, (goOn line).rip = line) ∧
      branchIf ⟨⟨opcode, size, sourceSize⟩, operands⟩ machine labels true =
        (target ⟨⟨opcode, size, sourceSize⟩, operands⟩ machine labels).map goOn :=
    ⟨machine.jump, fun _ => rfl, rfl⟩
  cases opcode with
  | jmp => exact jump
  | jumpIf condition =>
    rw [← show condition.holds machine.flags = true from taken] at jump
    exact jump
  | call => exact ⟨((machine.push (machine.rip + 1)).adjustDepth 1).jump, fun _ => rfl, rfl⟩
  | _ => cases taken

theorem execute_transfers (run : instruction.execute machine labels = .ok after) :
    instruction.Transfers machine labels after := by
  obtain ⟨⟨opcode, size, sourceSize⟩, operands⟩ := instruction
  cases opcode with
  | add | sub | imul | or | and | xor => exact .next rfl nofun (combine_control run)
  | cmp | test => exact .next rfl nofun (compare_control run)
  | inc | dec | neg | not => exact .next rfl nofun (modify_control run)
  | sal | shl | sar | shr => exact .next rfl nofun (shift_control run)
  | mov | movz | movs => exact .next rfl nofun (move_control run)
  | lea => exact .next rfl nofun (loadAddress_control run)
  | idiv => exact .next rfl nofun (divide_control run)
  | push => exact .next rfl nofun (pushOperand_control run)
  | pop => exact .next rfl nofun (popOperand_control run)
  | clt =>
    obtain rfl := Except.ok.inj run
    exact .next rfl nofun rfl
  | set condition => exact .next rfl nofun (setIf_control run)
  | jumpIf condition => exact branchIf_transfers nofun nofun rfl run
  | jmp => exact branchIf_transfers nofun nofun rfl run
  | call => exact enter_transfers rfl run
  | ret => exact leave_transfers rfl run

end Instruction

theorem Line.WellFormed.instruction {line : Line} {body : Instruction LabelRef}
    (wellFormed : line.WellFormed) (found : line.instruction? = some body) :
    (body.map LabelRef.name).WellFormed := by
  obtain ⟨number, statement, comment, breakpoint⟩ := line
  cases statement with
  | blank | comment | label => cases found
  | instruction =>
    obtain rfl := Option.some.inj found
    exact wellFormed.statement

/-- A line that some session accepted, and the instruction in it. -/
structure Line.Accepted (line : Line) (body : Instruction LabelRef) : Prop where
  parsed : ∃ (session next : Source.Session) (text : String),
    session.parseLine text = (.ok line, next)
  found : line.instruction? = some body

namespace Line.Accepted

variable {line : Line} {body : Instruction LabelRef} (accepted : line.Accepted body)
include accepted

theorem wellFormed : (body.map LabelRef.name).WellFormed := by
  obtain ⟨⟨_, _, _, parsed⟩, found⟩ := accepted
  exact (Source.Session.parseLine_ok parsed).wellFormed.instruction found

theorem matched : (body.operands.map LabelRef.name).Match body.mnemonic.slots :=
  accepted.wellFormed.matched

theorem listed : body.mnemonic ∈ Mnemonic.catalog :=
  accepted.wellFormed.listed

end Line.Accepted

/-- Evaluation goes on to the next line or as the instruction says, and counts one step. -/
theorem Line.evaluate_transfers {line : Line} {machine after : Machine} {labels : LabelTable}
    (evaluates : line.evaluate machine labels = .ok after) :
    after.control = { machine.control.next with step := machine.step + 1 } ∨
      ∃ body reached, line.instruction? = some body ∧ body.Transfers machine labels reached ∧
        after = reached.countStep := by
  unfold evaluate at evaluates
  split at evaluates
  · obtain rfl := Except.ok.inj evaluates
    exact .inl rfl
  · rename_i body found
    split at evaluates
    · rename_i reached run
      obtain rfl := Except.ok.inj evaluates
      exact .inr ⟨body, reached, found, Instruction.execute_transfers run, rfl⟩
    · cases evaluates

/-- A line counts one step, keeps the stack base and leaves at most one call. -/
theorem Line.evaluate_frame {line : Line} {machine after : Machine} {labels : LabelTable}
    (evaluates : line.evaluate machine labels = .ok after) :
    after.step = machine.step + 1 ∧ after.stackBase = machine.stackBase ∧
      machine.callDepth - 1 ≤ after.callDepth := by
  rcases line.evaluate_transfers evaluates with control | ⟨body, reached, _, transfers, rfl⟩
  · have depth := congrArg Control.callDepth control
    refine ⟨congrArg Control.step control, congrArg Control.stackBase control, ?_⟩
    exact (Int.sub_le_self _ Int.one_nonneg).trans_eq depth.symm
  · obtain ⟨step, stackBase, depth⟩ := transfers.frame
    exact ⟨congrArg (· + 1) step, stackBase, depth⟩

end AsmLab
