import AsmLab.Proofs.Exec.StackDiscipline
import AsmLab.Proofs.Exec.StepFrame
import AsmLab.Proofs.Run.History

/-! A return that finds the stack as its call left it. It goes behind the call, on to the next line,
unless the call is the last line of the program: there is no line to return to, and the return
faults. -/
namespace AsmLab

theorem Line.Holds.pushed_of_call {line : Line} {operands : Operands LabelRef}
    {machine entered : Machine} {labels : LabelTable} (calls : line.Holds .call operands)
    (run : line.evaluate machine labels = .ok entered) :
    machine.Pushed (machine.rip + 1) entered ∧ entered.callDepth = machine.callDepth + 1 := by
  obtain ⟨body, found, opcode, -⟩ := calls
  simp only [Line.evaluate, found, Instruction.execute, opcode] at run
  split at run
  · rename_i next enters
    obtain ⟨target, -, jumps⟩ := Source.exists_of_bind_ok enters
    obtain rfl := Except.ok.inj run
    obtain rfl := Except.ok.inj jumps
    exact ⟨⟨machine.stackPointer_setStackPointer _, rfl, rfl, rfl⟩, rfl⟩
  · cases run

/-- A return below the top level goes to the line whose number is on the stack. -/
theorem Line.Holds.returned_of_ret {line : Line} {operands : Operands LabelRef}
    {machine after : Machine} {labels : LabelTable} (returns : line.Holds .ret operands)
    (called : 0 < machine.callDepth) (run : line.evaluate machine labels = .ok after) :
    machine.readMemory machine.stackPointer .quad = after.rip ∧
      after.callDepth = machine.callDepth - 1 := by
  obtain ⟨body, found, opcode, -⟩ := returns
  simp only [Line.evaluate, found, Instruction.execute, opcode, Machine.leave,
    if_neg (Int.not_le.mpr called)] at run
  split at run
  · rename_i next leaves
    obtain ⟨target, behind, jumps⟩ := Source.exists_of_bind_ok leaves
    obtain rfl := Except.ok.inj run
    obtain rfl := Except.ok.inj jumps
    exact ⟨Machine.readMemory_of_returnLine behind, rfl⟩
  · cases run

theorem Size.truncate_quad_lt (value : Int) : Size.quad.truncate value < 2 ^ 63 :=
  (Size.quad.truncate_range value).2

namespace Simulation

theorem checkReturn_ret {line : Line} {operands : Operands LabelRef} {next : Machine}
    (ret : line.Holds .ret operands) (inside : 0 ≤ next.callDepth) (length : Nat) :
    checkReturn line next length =
      if next.rip < length then .ok next
      else .error ⟨line.number, .invalidReturnAddress next.rip⟩ := by
  obtain ⟨body, found, opcode, -⟩ := ret
  by_cases placed : next.rip < length
  · simp [checkReturn, placed]
  · simp [checkReturn, found, opcode, inside, placed, Nat.le_of_not_lt placed]

variable {simulation calling entered later : Simulation}

theorem current_mem_history (simulation : Simulation) : simulation.current ∈ simulation.history := by
  change latest simulation.initial simulation.trail ∈ path simulation.initial simulation.trail
  rw [path_eq]
  exact List.mem_concat_self

/-- A step forward that evaluated a line has put one machine to the end of the history. -/
theorem evaluated_of_stepped (stepped : calling.stepForward = (.ok .stepped, entered)) :
    ∃ line, calling.program.Step calling.current .proceed line
        ⟨entered.current, line.usedRegisters⟩ ∧
      entered.history = calling.history ++ [entered.current] := by
  rcases calling.stepForward_cases with ⟨_, same⟩ | ⟨line, reached, step, same⟩ | ⟨_, _, _, same⟩
  · rw [stepped] at same
    cases same
  · rw [stepped] at same
    cases same
    cases step with
    | evaluated running found evaluates returns =>
      exact ⟨line, .evaluated running found evaluates returns, path_cons⟩
  · rw [stepped] at same
    cases same

theorem history_prefix_stepForward (simulation : Simulation) :
    simulation.history <+: (simulation.perform .stepForward).history := by
  change _ <+: simulation.stepForward.2.history
  rcases simulation.stepForward_cases with ⟨_, same⟩ | ⟨line, reached, _, same⟩ | ⟨_, _, _, same⟩
  · rw [same]
  · rw [same]
    exact ⟨[reached.machine], path_cons.symm⟩
  · rw [same]
    exact List.prefix_rfl

/-- A step forward evaluates a call that has room below the stack base. -/
structure Calls (calling entered : Simulation) : Prop where
  stepped : calling.stepForward = (.ok .stepped, entered)
  call : ∃ line operands, calling.program.line? calling.current.rip = some line ∧
    line.Holds .call operands
  held : calling.current.stackPointer - 8 < calling.current.stackBase

theorem Calls.inside (calls : calling.Calls entered) : 0 ≤ calling.current.callDepth := by
  obtain ⟨_, step, _⟩ := evaluated_of_stepped calls.stepped
  exact step.inside

/-- Later in the same history a return is next, and depth, stack pointer and return address are as
they were right behind the call. -/
structure Matches (entered later : Simulation) : Prop where
  history : entered.history <+: later.history
  ret : ∃ line operands, later.program.line? later.current.rip = some line ∧
    line.Holds .ret operands
  callDepth : later.current.callDepth = entered.current.callDepth
  stackPointer : later.current.stackPointer = entered.current.stackPointer
  bytes : later.current.memory.read later.current.stackPointer Size.quad.bytes =
    entered.current.memory.read entered.current.stackPointer Size.quad.bytes

variable {program : Program} {initial : Machine} {limits : RunLimits} {edited : Bool}

/-- The return address is read back, and it is on the stack. -/
theorem Reachable.returnAddress (built : program.Reachable)
    (reached : Reachable program initial limits edited later) (calls : calling.Calls entered)
    (matched : entered.Matches later) :
    later.current.readMemory later.current.stackPointer .quad =
        Size.quad.truncate (calling.current.rip + 1) ∧
      later.current.stackPointer < later.current.stackBase ∧
        later.current.callDepth = calling.current.callDepth + 1 ∧
          later.current.stackPointer + 8 = calling.current.stackPointer := by
  obtain ⟨line, step, history⟩ := evaluated_of_stepped calls.stepped
  obtain ⟨called, operands, found, call⟩ := calls.call
  obtain rfl := Option.some.inj (found.symm.trans step.found)
  cases step with
  | evaluated _ _ evaluates _ =>
    obtain ⟨pushed, depth⟩ := call.pushed_of_call evaluates
    have pointer := matched.stackPointer.trans pushed.stackPointer
    have base := (reached.traced built.sound).stackBase_eq
    have caller : calling.current ∈ later.history := by
      apply matched.history.subset
      rw [history]
      exact List.mem_append_left _ calling.current_mem_history
    have same : later.current.stackBase = calling.current.stackBase :=
      (base _ later.current_mem_history).trans (base _ caller).symm
    refine ⟨pushed.readMemory_eq matched.bytes, ?_, matched.callDepth.trans depth, ?_⟩
    · rw [pointer, same]
      exact calls.held
    · rw [pointer, BitVec.sub_add_cancel]

/-- The instruction itself goes behind the call, also if there is no line. -/
theorem Reachable.evaluate_matched (built : program.Reachable)
    (reached : Reachable program initial limits edited later) (calls : calling.Calls entered)
    (matched : entered.Matches later) {line : Line} {operands : Operands LabelRef}
    (ret : line.Holds .ret operands) (near : calling.current.rip + 1 < 2 ^ 63) :
    ∃ after, line.evaluate later.current later.program.labels = .ok after ∧
      after.rip = calling.current.rip + 1 ∧
      after.stackPointer = calling.current.stackPointer ∧
      after.callDepth = calling.current.callDepth := by
  obtain ⟨address, held, depth, pointer⟩ := reached.returnAddress built calls matched
  have called : 0 < later.current.callDepth := by
    have := calls.inside
    omega
  have behind := address.trans (Size.truncate_return (Nat.lt_sub_of_add_lt near))
  obtain ⟨after, run, popped, shallower, rip⟩ :=
    ret.evaluate_ret called held behind later.program.labels
  exact ⟨after, run, rip, popped.stackPointer.trans pointer, by omega⟩

/-- A return that finds depth and stack as its call has left them goes behind the call, with the stack
pointer and the depth of the caller, exactly if there is a line behind the call. If the call is the
last line, the return faults and leaves the history as it is. What was skipped, taken back or edited
in between does not matter. The number of the line has to fit a signed quad, as all positions of
lines that a memory can hold do. -/
theorem Reachable.stepForward_matched (built : program.Reachable)
    (reached : Reachable program initial limits edited later) (calls : calling.Calls entered)
    (matched : entered.Matches later) :
    ((∃ returned, later.stepForward = (.ok .stepped, returned) ∧
          returned.current.rip = calling.current.rip + 1 ∧
          returned.current.stackPointer = calling.current.stackPointer ∧
          returned.current.callDepth = calling.current.callDepth) ↔
        calling.current.rip + 1 < later.program.length ∧ calling.current.rip + 1 < 2 ^ 63) ∧
      (later.program.length ≤ calling.current.rip + 1 → calling.current.rip + 1 < 2 ^ 63 →
        later.stepForward =
          (.error ⟨later.current.rip, .invalidReturnAddress (calling.current.rip + 1)⟩,
            later.failed
              ⟨later.current.rip, .invalidReturnAddress (calling.current.rip + 1)⟩)) := by
  obtain ⟨address, -, depth, -⟩ := reached.returnAddress built calls matched
  obtain ⟨line, operands, found, ret⟩ := matched.ret
  have outside := calls.inside
  have called : 0 < later.current.callDepth := by omega
  have running : later.current.isFinished later.program.length = false :=
    Machine.running_iff.mpr ⟨(List.getElem?_eq_some_iff.mp found).1, called.le⟩
  refine ⟨⟨?_, ?_⟩, ?_⟩
  · rintro ⟨returned, stepped, rip, -, -⟩
    obtain ⟨other, step, -⟩ := evaluated_of_stepped stepped
    obtain rfl := Option.some.inj (found.symm.trans step.found)
    cases step with
    | evaluated _ _ run checked =>
      obtain ⟨popped, shallower⟩ := ret.returned_of_ret called run
      rw [checkReturn_ret ret (by omega)] at checked
      have small := Size.truncate_quad_lt (calling.current.rip + 1)
      rw [← address, popped, rip] at small
      split at checked
      · omega
      · cases checked
  · rintro ⟨inside, near⟩
    obtain ⟨after, run, rip, stackPointer, callDepth⟩ :=
      reached.evaluate_matched built calls matched ret near
    have checked := checkReturn_ret ret (callDepth ▸ outside) later.program.length
    rw [if_pos (rip ▸ inside)] at checked
    exact ⟨_, stepForward_step (.evaluated running found run checked), rip, stackPointer, callDepth⟩
  · intro past near
    obtain ⟨after, run, rip, -, callDepth⟩ :=
      reached.evaluate_matched built calls matched ret near
    have checked := checkReturn_ret ret (callDepth ▸ outside) later.program.length
    have number := (reached.program_sound built.sound).numbers _ line found
    rw [if_neg (by omega), rip, number] at checked
    exact stepForward_fails (.returning running found run checked)

/-- A call in front of another line, and a return behind a push and a pop. -/
theorem stepForward_matched_spill :
    let program := ((((Program.empty.edit (.push "callq f")).edit (.push "f:")).edit
      (.push "pushq %rax")).edit (.push "popq %rbx")).edit (.push "retq")
    let calling := startingFrom program (.initial Machine.defaultStackBase) {}
    let entered := calling.perform .stepForward
    let later := ((entered.perform .stepForward).perform .stepForward).perform .stepForward
    calling.Calls entered ∧ entered.Matches later ∧
      ∃ returned, later.stepForward = (.ok .stepped, returned) ∧ returned.current.rip = 1 := by
  intro program calling entered later
  have built : program.Reachable := .edited (.edited (.edited (.edited (.edited .start _) _) _) _) _
  have fresh : Reachable program (.initial Machine.defaultStackBase) {} false calling := .start
  have reached := (((fresh.performed .stepForward).performed .stepForward).performed
    .stepForward).performed .stepForward
  have stepped : calling.stepForward.1 = .ok .stepped := by decide +kernel
  have calls : calling.Calls entered := by
    refine ⟨Prod.ext stepped rfl, ?_, by decide +kernel⟩
    exact ⟨⟨0, .instruction ⟨.uniform .call .quad, .unary (.label ⟨⟨0⟩, "f"⟩)⟩, none, false⟩, _,
      by decide +kernel, _, rfl, rfl, rfl⟩
  have matched : entered.Matches later := by
    refine ⟨?_, ?_, by decide +kernel, by decide +kernel, by decide +kernel⟩
    · exact ((history_prefix_stepForward _).trans (history_prefix_stepForward _)).trans
        (history_prefix_stepForward _)
    · exact ⟨⟨4, .instruction ⟨.uniform .ret .quad, .nullary⟩, none, false⟩, _,
        by decide +kernel, _, rfl, rfl, rfl⟩
  obtain ⟨returned, again, rip, -⟩ :=
    (reached.stepForward_matched built calls matched).1.mpr ⟨by decide +kernel, by decide +kernel⟩
  exact ⟨calls, matched, returned, again, rip.trans (by decide +kernel)⟩

/-- Not every return that finds the stack as its call left it succeeds: no line is behind a call on the
last line. -/
theorem not_stepForward_matched :
    ¬ ∀ (program : Program) (initial : Machine) (limits : RunLimits) (edited : Bool)
        (calling entered later : Simulation), program.Reachable →
        Reachable program initial limits edited later → calling.Calls entered →
        entered.Matches later → later.program = calling.program →
          ∃ returned, later.stepForward = (.ok .stepped, returned) ∧
            returned.current.rip = calling.current.rip + 1 ∧
            returned.current.stackPointer = calling.current.stackPointer ∧
            returned.current.callDepth = calling.current.callDepth := by
  intro all
  let program := ((((Program.empty.edit (.push "jmp main")).edit (.push "f:")).edit
    (.push "retq")).edit (.push "main:")).edit (.push "callq f")
  have built : program.Reachable := .edited (.edited (.edited (.edited (.edited .start _) _) _) _) _
  let start := startingFrom program (.initial Machine.defaultStackBase) {}
  let calling := (start.perform .stepForward).perform .stepForward
  let entered := calling.perform .stepForward
  let later := entered.perform .stepForward
  have fresh : Reachable program (.initial Machine.defaultStackBase) {} false start := .start
  have reached := (((fresh.performed .stepForward).performed .stepForward).performed
    .stepForward).performed .stepForward
  have stepped : calling.stepForward.1 = .ok .stepped := by decide +kernel
  have calls : calling.Calls entered := by
    refine ⟨Prod.ext stepped rfl, ?_, by decide +kernel⟩
    exact ⟨⟨4, .instruction ⟨.uniform .call .quad, .unary (.label ⟨⟨1⟩, "f"⟩)⟩, none, false⟩, _,
      by decide +kernel, _, rfl, rfl, rfl⟩
  have matched : entered.Matches later := by
    refine ⟨history_prefix_stepForward _, ?_, by decide +kernel, by decide +kernel,
      by decide +kernel⟩
    exact ⟨⟨2, .instruction ⟨.uniform .ret .quad, .nullary⟩, none, false⟩, _,
      by decide +kernel, _, rfl, rfl, rfl⟩
  have unedited : later.program = calling.program := by decide +kernel
  have faults : later.stepForward.1 = .error ⟨2, .invalidReturnAddress 5⟩ := by decide +kernel
  obtain ⟨returned, again, -⟩ :=
    all program _ _ _ calling entered later built reached calls matched unedited
  rw [again] at faults
  cases faults

end Simulation

end AsmLab
