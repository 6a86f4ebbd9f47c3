import AsmLab.Proofs.Exec.Control
import AsmLab.Proofs.Exec.OperandContents
import AsmLab.Proofs.Exec.StoreEffects

/-! The frame of one step: what an instruction may change, said without evaluating it. These are the
regions that it stores to, the flags that it updates, and the line and call depth that it goes to. -/
namespace AsmLab

namespace Instruction

/-- The regions that an instruction changes. -/
def written (instruction : Instruction LabelRef) (machine : Machine) : List Region :=
  let size := instruction.mnemonic.size
  match instruction.mnemonic.opcode with
  | .cmp | .test | .jumpIf _ | .jmp => []
  | .clt => [.view Gpr.rax.full]
  | .idiv => [.view (dividendRegisters size).2, .view (dividendRegisters size).1]
  | .push | .call => [.view Gpr.rsp.full, .bytes (machine.stackPointer - 8) .quad]
  -- The destination is located with the stack pointer already raised.
  | .pop =>
    .view Gpr.rsp.full ::
      instruction.operands.stored .quad (machine.setStackPointer (machine.stackPointer + 8))
  | .ret => if machine.callDepth ≤ 0 then [] else [.view Gpr.rsp.full]
  | .set _ => instruction.operands.stored .byte machine
  | _ => instruction.operands.stored size machine

/-- Instructions that leave the whole memory as it is. -/
def SparesMemory (instruction : Instruction LabelRef) : Prop :=
  match instruction.mnemonic.opcode with
  | .cmp | .test | .lea | .idiv | .clt | .jumpIf _ | .jmp | .ret => True
  | .push | .call => False
  | _ => ∃ register, instruction.operands.destination? = some (.register register)

/-- Instructions that leave the carry flag as it is. -/
def KeepsCarry (instruction : Instruction LabelRef) (machine : Machine) : Prop :=
  match instruction.mnemonic.opcode with
  | .inc | .dec => True
  | .sal | .shl | .sar | .shr => ∃ count destination,
    instruction.operands = .binary count destination ∧
      (count.contents .byte machine).toNat % 64 = 0
  | _ => False

end Instruction

namespace Opcode

/-- Instructions that leave all flags as they are. -/
def keepsFlags : Opcode → Bool
  | mov | movz | movs | lea | not | idiv | push | pop | set _ | jumpIf _ | jmp | call | ret
  | clt => true
  | _ => false

/-- What an instruction adds to the number of open calls. -/
def depthChange : Opcode → Int
  | call => 1
  | ret => -1
  | _ => 0

end Opcode

namespace Instruction

variable {instruction : Instruction LabelRef} {machine after : Machine} {labels : LabelTable}

theorem shift_keepsCarry {operation : Size → Int → Nat → Alu.Result}
    (spared : ∀ size value, (operation size value 0).flags.carry = none)
    (run : instruction.shift machine labels operation = .ok after) :
    ∃ update, machine.Effect (instruction.operands.stored instruction.mnemonic.size machine)
        update after ∧
      ((instruction.operands.map LabelRef.name).Match
          [.count, .location instruction.mnemonic.size] →
        (∃ count destination, instruction.operands = .binary count destination ∧
          (count.contents .byte machine).toNat % 64 = 0) → update.carry = none) := by
  obtain ⟨source, destination, amount, value, shape, read, effect⟩ := shift_effect run
  refine ⟨_, effect, ?_⟩
  rintro matched ⟨count, other, again, zero⟩
  obtain ⟨rfl, rfl⟩ := Operands.binary.inj (shape.symm.trans again)
  rw [shape] at matched
  obtain ⟨admitted, _, _⟩ := matched
  have contents : source.read .byte machine labels = .ok (source.contents .byte machine).toInt :=
    Operand.read_eq_contents admitted rfl machine labels
  obtain rfl := Except.ok.inj (read.symm.trans contents)
  rw [(Alu.shiftCount_toInt _).trans zero]
  exact spared _ value

/-- An instruction changes what it is said to change. The count of a shift is read as it is said to be
if the operands fit their places. -/
theorem execute_effect (run : instruction.execute machine labels = .ok after) :
    ∃ update, machine.Effect (instruction.written machine) update after ∧
      (instruction.mnemonic.opcode.keepsFlags = true → update = .none) ∧
      ((instruction.operands.map LabelRef.name).Match instruction.mnemonic.slots →
        instruction.KeepsCarry machine → update.carry = none) := by
  obtain ⟨⟨opcode, size, sourceSize⟩, operands⟩ := instruction
  cases opcode with
  | add | sub | imul | or | and | xor =>
    obtain ⟨update, effect⟩ := combine_effect run
    exact ⟨update, effect, nofun, fun _ => nofun⟩
  | cmp | test =>
    obtain ⟨update, effect⟩ := compare_effect run
    exact ⟨update, effect, nofun, fun _ => nofun⟩
  | inc | dec =>
    obtain ⟨value, effect⟩ := modify_effect run
    exact ⟨_, effect, nofun, fun _ _ => rfl⟩
  | neg =>
    obtain ⟨value, effect⟩ := modify_effect run
    exact ⟨_, effect, nofun, fun _ => nofun⟩
  | not =>
    obtain ⟨value, effect⟩ := modify_effect run
    exact ⟨_, effect, fun _ => rfl, fun _ => nofun⟩
  | sal | shl | sar | shr =>
    obtain ⟨update, effect, carry⟩ := shift_keepsCarry (fun _ _ => rfl) run
    exact ⟨update, effect, nofun, carry⟩
  | mov | movz | movs => exact ⟨_, move_effect run, fun _ => rfl, fun _ => nofun⟩
  | lea => exact ⟨_, loadAddress_effect run, fun _ => rfl, fun _ => nofun⟩
  | idiv => exact ⟨_, divide_effect run, fun _ => rfl, fun _ => nofun⟩
  | push => exact ⟨_, pushOperand_effect run, fun _ => rfl, fun _ => nofun⟩
  | pop => exact ⟨_, popOperand_effect run, fun _ => rfl, fun _ => nofun⟩
  | set condition => exact ⟨_, setIf_effect run, fun _ => rfl, fun _ => nofun⟩
  | jumpIf | jmp => exact ⟨_, branchIf_effect run, fun _ => rfl, fun _ => nofun⟩
  | call => exact ⟨_, enter_effect run, fun _ => rfl, fun _ => nofun⟩
  | ret => exact ⟨_, leave_effect run, fun _ => rfl, fun _ => nofun⟩
  | clt =>
    obtain rfl := Except.ok.inj run
    exact ⟨_, (Machine.Effect.setRegister ..).advance, fun _ => rfl, fun _ => nofun⟩

theorem region_of_destination {operands : Operands LabelRef} {register : Register}
    (found : operands.destination? = some (.register register)) (size : Size) (machine : Machine) :
    operands.stored size machine = [.view register] := by
  rw [Operands.stored, found]
  rfl

/-- An instruction that spares memory writes to registers only. -/
theorem written_views
    (matched : (instruction.operands.map LabelRef.name).Match instruction.mnemonic.slots)
    (spares : instruction.SparesMemory) (machine : Machine) :
    ∀ region ∈ instruction.written machine, ∃ register, region = .view register := by
  obtain ⟨⟨opcode, size, sourceSize⟩, operands⟩ := instruction
  have place (size : Size) (machine : Machine) (register : Register)
      (found : operands.destination? = some (.register register)) :
      ∀ region ∈ operands.stored size machine, ∃ register, region = .view register := by
    rw [region_of_destination found]
    simp
  cases opcode with
  | cmp | test | jumpIf | jmp | clt | idiv => simp [written]
  | push | call => exact spares.elim
  | ret =>
    simp only [written]
    split <;> simp
  | lea =>
    obtain ⟨source, destination, rfl, _, admitted⟩ := matched.exists_binary
    cases destination with
    | register register => exact place size machine register rfl
    | immediate _ | memory _ | label _ => exact absurd admitted.1 (by simp [Slot.registerOnly])
  | pop =>
    obtain ⟨register, found⟩ := spares
    exact List.forall_mem_cons.mpr ⟨⟨_, rfl⟩, place _ _ register found⟩
  | _ =>
    obtain ⟨register, found⟩ := spares
    exact place _ _ register found

/-- The line and the call depth that a step goes to. -/
structure Lands (instruction : Instruction LabelRef) (labels : LabelTable)
    (before after : Machine) : Prop where
  next : instruction.mnemonic.opcode.branches before.flags = false →
    instruction.mnemonic.opcode ≠ .ret → after.rip = before.rip + 1
  branch : instruction.mnemonic.opcode.branches before.flags = true →
    ∃ target, instruction.operands = .unary (.label target) ∧
      labels.line? target.id = some after.rip
  /-- A return below the top level goes to the line that it pops. -/
  leave : instruction.mnemonic.opcode = .ret → 0 < before.callDepth →
    before.readMemory before.stackPointer .quad = after.rip
  finish : instruction.mnemonic.opcode = .ret → before.callDepth ≤ 0 → after.rip = before.rip
  callDepth : after.callDepth = before.callDepth + instruction.mnemonic.opcode.depthChange

/-- What a step changes, and what it leaves alone. -/
structure Framed (instruction : Instruction LabelRef) (labels : LabelTable)
    (before after : Machine) : Prop extends instruction.Lands labels before after where
  step : after.step = before.step + 1
  stackBase : after.stackBase = before.stackBase
  outside : before.SameOutside (instruction.written before) after
  memory : instruction.SparesMemory → after.memory = before.memory
  flags : instruction.mnemonic.opcode.keepsFlags = true → after.flags = before.flags
  carry : instruction.KeepsCarry before → after.flags.carry = before.flags.carry

end Instruction

theorem Machine.readMemory_of_returnLine {machine : Machine} {line : Nat}
    (found : machine.returnLine = .ok line) :
    machine.readMemory machine.stackPointer .quad = line := by
  unfold Machine.returnLine at found
  split at found
  · cases found
  · split at found
    · rename_i popped
      obtain rfl := Except.ok.inj found
      exact popped
    · cases found

theorem Opcode.depthChange_of_ne {opcode : Opcode} (inside : opcode ≠ .ret) :
    opcode.depthChange = if opcode = .call then 1 else 0 := by
  cases opcode with
  | ret => exact absurd rfl inside
  | _ => rfl

namespace Instruction

variable {instruction : Instruction LabelRef} {machine after : Machine} {labels : LabelTable}

theorem Transfers.lands (transfers : instruction.Transfers machine labels after)
    (matched : (instruction.operands.map LabelRef.name).Match instruction.mnemonic.slots) :
    instruction.Lands labels machine after := by
  cases transfers with
  | next untaken inside control =>
    have uncalled : instruction.mnemonic.opcode ≠ .call := by
      intro calls
      rw [calls] at untaken
      cases untaken
    refine ⟨fun _ _ => congrArg Control.rip control, ?_, ?_, ?_, ?_⟩
    · exact fun taken => absurd (untaken.symm.trans taken) Bool.false_ne_true
    · exact fun returns => absurd returns inside
    · exact fun returns => absurd returns inside
    · rw [Opcode.depthChange_of_ne inside, if_neg uncalled, Int.add_zero]
      exact congrArg Control.callDepth control
  | branch taken found control =>
    have inside : instruction.mnemonic.opcode ≠ .ret := by
      intro returns
      rw [returns] at taken
      cases taken
    obtain ⟨target, shape⟩ := exists_target matched taken
    have line : after.rip = _ := congrArg Control.rip control
    refine ⟨?_, fun _ => ⟨target, shape, ?_⟩, ?_, ?_, ?_⟩
    · exact fun untaken => absurd (untaken.symm.trans taken) Bool.false_ne_true
    · rw [line]
      exact target_ok shape found
    · exact fun returns => absurd returns inside
    · exact fun returns => absurd returns inside
    · rw [Opcode.depthChange_of_ne inside]
      exact congrArg Control.callDepth control
  | leave returns called found control =>
    have line : after.rip = _ := congrArg Control.rip control
    have untaken : instruction.mnemonic.opcode.branches machine.flags = false := by
      rw [returns]
      rfl
    refine ⟨fun _ inside => absurd returns inside, ?_, fun _ _ => ?_, ?_, ?_⟩
    · exact fun taken => absurd (untaken.symm.trans taken) Bool.false_ne_true
    · rw [line]
      exact Machine.readMemory_of_returnLine found
    · exact fun _ top => absurd top (Int.not_le.mpr called)
    · rw [returns]
      exact congrArg Control.callDepth control
  | finish returns top control =>
    have untaken : instruction.mnemonic.opcode.branches machine.flags = false := by
      rw [returns]
      rfl
    refine ⟨fun _ inside => absurd returns inside, ?_, ?_, fun _ _ => ?_, ?_⟩
    · exact fun taken => absurd (untaken.symm.trans taken) Bool.false_ne_true
    · exact fun _ called => absurd top (Int.not_le.mpr called)
    · exact congrArg Control.rip control
    · rw [returns]
      exact congrArg Control.callDepth control

end Instruction

/-- An accepted instruction that does not fault changes nothing beyond its frame. -/
theorem Line.Accepted.evaluate_framed {line : Line} {body : Instruction LabelRef}
    (accepted : line.Accepted body) {machine after : Machine} {labels : LabelTable}
    (evaluates : line.evaluate machine labels = .ok after) : body.Framed labels machine after := by
  simp only [Line.evaluate, accepted.found] at evaluates
  split at evaluates
  · rename_i reached run
    obtain rfl := Except.ok.inj evaluates
    have transfers := Instruction.execute_transfers run
    have lands := transfers.lands accepted.matched
    obtain ⟨step, stackBase, _⟩ := transfers.frame
    obtain ⟨update, effect, flags, carry⟩ := Instruction.execute_effect run
    have outside : machine.SameOutside (body.written machine) reached.countStep :=
      effect.outside.of_later rfl rfl
    have updated : reached.countStep.flags = update.apply machine.flags := effect.flags
    refine ⟨⟨lands.next, lands.branch, lands.leave, lands.finish, lands.callDepth⟩,
      congrArg (· + 1) step, stackBase, outside, fun spares => ?_, fun keeps => ?_, fun keeps => ?_⟩
    · exact outside.memory_eq (Instruction.written_views accepted.matched spares machine)
    · rw [updated, flags keeps, FlagUpdate.apply_none]
    · rw [updated, FlagUpdate.apply, carry accepted.matched keeps, Option.getD_none]
  · cases evaluates

/-- A pop through the stack pointer stores to where it points after the pop, so the popped slot
keeps its bytes. -/
theorem Line.Accepted.evaluate_framed_pop :
    let body : Instruction LabelRef :=
      ⟨.uniform .pop .quad, .unary (.memory ⟨0, Gpr.rsp.full, none, 1⟩)⟩
    let line : Line := ⟨0, .instruction body, none, false⟩
    let machine := (Machine.initial 0x8000).push 0x1234
    line.Accepted body ∧
      ∃ after, line.evaluate machine .empty = .ok after ∧ after.step = 1 ∧ after.rip = 1 ∧
        after.flags = machine.flags ∧
        after.memory.cell? 0x7ff8 = machine.memory.cell? 0x7ff8 := by
  intro body line machine
  have accepted : line.Accepted body :=
    ⟨⟨.empty, ⟨1, .empty⟩, "popq (%rsp)", by decide +kernel⟩, rfl⟩
  have succeeds : (line.evaluate machine .empty).isOk = true := by decide +kernel
  cases evaluates : line.evaluate machine .empty with
  | error fault =>
    rw [evaluates] at succeeds
    cases succeeds
  | ok after =>
    have framed := accepted.evaluate_framed evaluates
    refine ⟨accepted, after, rfl, framed.step, framed.next rfl nofun, framed.flags rfl, ?_⟩
    apply framed.outside.memory
    decide +kernel

end AsmLab