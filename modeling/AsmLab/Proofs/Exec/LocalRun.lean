import AsmLab.Exec.Evaluate
import AsmLab.Proofs.Source.Acceptance

/-! Computations that stay inside a list of registers: they change no register outside the list, and
machines that differ outside it only are taken to such machines again, or fault alike. Both halves
compose, so a computation is local if its parts are. -/
namespace AsmLab

open Source (exists_of_bind_ok)

/-- Two machines that differ at most in registers outside a list. -/
structure Machine.AgreeOn (registers : List Gpr) (first second : Machine) : Prop where
  values : ∀ register ∈ registers, first.registers.get register = second.registers.get register
  flags : first.flags = second.flags
  rip : first.rip = second.rip
  callDepth : first.callDepth = second.callDepth
  memory : first.memory = second.memory
  step : first.step = second.step
  stackBase : first.stackBase = second.stackBase

namespace Machine.AgreeOn

variable {registers : List Gpr} {first second : Machine} (agree : first.AgreeOn registers second)
include agree

theorem view {register : Register} (inside : register.parent ∈ registers) :
    first.registers.view register = second.registers.view register := by
  rw [RegisterFile.view, RegisterFile.view, agree.values _ inside]

theorem stackPointer (stack : Gpr.rsp ∈ registers) : first.stackPointer = second.stackPointer :=
  agree.values _ stack

theorem readMemory (address : Address) (size : Size) :
    first.readMemory address size = second.readMemory address size := by
  rw [Machine.readMemory, Machine.readMemory, agree.memory]

end Machine.AgreeOn

/-- Two attempts fail alike, or both succeed with related values. -/
inductive SameOutcome {Failure Value : Type} (related : Value → Value → Prop) :
    Except Failure Value → Except Failure Value → Prop where
  | failed (failure : Failure) : SameOutcome related (.error failure) (.error failure)
  | succeeded {first second : Value} (same : related first second) :
      SameOutcome related (.ok first) (.ok second)

theorem SameOutcome.bind {Failure First Second : Type} {related : First → First → Prop}
    {relatedNext : Second → Second → Prop} {left right : Except Failure First}
    {next : First → Except Failure Second} (both : SameOutcome related left right)
    (go : ∀ {first second : First}, related first second →
      SameOutcome relatedNext (next first) (next second)) :
    SameOutcome relatedNext (left >>= next) (right >>= next) := by
  cases both with
  | failed failure => exact .failed failure
  | succeeded same => exact go same

/-- A change that depends on registers of a list only, and changes no other one. -/
structure LocalChange (registers : List Gpr) (change : Machine → Machine) : Prop where
  keeps : ∀ machine register, register ∉ registers →
    (change machine).registers.get register = machine.registers.get register
  alike : ∀ {first second : Machine}, first.AgreeOn registers second →
    (change first).AgreeOn registers (change second)

/-- A computation that depends on registers of a list only, and changes no other one. -/
structure LocalRun {Failure : Type} (registers : List Gpr)
    (run : Machine → Except Failure Machine) : Prop where
  keeps : ∀ {machine after : Machine}, run machine = .ok after →
    ∀ register, register ∉ registers →
      after.registers.get register = machine.registers.get register
  alike : ∀ {first second : Machine}, first.AgreeOn registers second →
    SameOutcome (Machine.AgreeOn registers) (run first) (run second)

variable {registers : List Gpr}

namespace LocalChange

theorem comp {first second : Machine → Machine} (outer : LocalChange registers second)
    (inner : LocalChange registers first) :
    LocalChange registers fun machine => second (first machine) where
  keeps machine register outside :=
    (outer.keeps _ register outside).trans (inner.keeps machine register outside)
  alike same := outer.alike (inner.alike same)

theorem jump (line : Nat) : LocalChange registers (·.jump line) where
  keeps _ _ _ := rfl
  alike same := { same with rip := rfl }

theorem advance : LocalChange registers Machine.advance where
  keeps _ _ _ := rfl
  alike same := { same with rip := congrArg (· + 1) same.rip }

theorem complete (flags : FlagUpdate) : LocalChange registers (·.complete flags) where
  keeps _ _ _ := rfl
  alike same := { same with
    flags := congrArg flags.apply same.flags, rip := congrArg (· + 1) same.rip }

theorem adjustDepth (change : Int) : LocalChange registers (·.adjustDepth change) where
  keeps _ _ _ := rfl
  alike same := { same with callDepth := congrArg (· + change) same.callDepth }

theorem countStep : LocalChange registers Machine.countStep where
  keeps _ _ _ := rfl
  alike same := { same with step := congrArg (· + 1) same.step }

theorem store (address : Address) (size : Size) (value : Int) :
    LocalChange registers (·.store address size value) where
  keeps _ _ _ := rfl
  alike same := { same with
    memory := by simp only [Machine.store, same.memory, same.step] }

/-- A change of one register of the list to a word that this register decides. -/
theorem setSlot {register : Gpr} (inside : register ∈ registers)
    (word : BitVec 64 → BitVec 64) :
    LocalChange registers fun machine =>
      { machine with
        registers := machine.registers.set register (word (machine.registers.get register)) } where
  keeps machine other outside := by
    have apart : register ≠ other := fun same => outside (same ▸ inside)
    exact (RegisterFile.get_set ..).trans (if_neg apart)
  alike {first second} same := { same with
    values := by
      intro other member
      simp only [RegisterFile.get_set, same.values register inside, same.values other member] }

theorem setRegister {register : Register} (inside : register.parent ∈ registers) (value : Int) :
    LocalChange registers (·.setRegister register value) :=
  setSlot inside (splice · register.shift (BitVec.ofInt register.size.bits value))

theorem setStackPointer (stack : Gpr.rsp ∈ registers) (address : Address) :
    LocalChange registers (·.setStackPointer address) :=
  setSlot stack fun _ => address

/-- A change may depend on whatever agreeing machines agree on. -/
theorem of_value {Value : Type} {change : Value → Machine → Machine} (value : Machine → Value)
    (same : ∀ {first second : Machine}, first.AgreeOn registers second →
      value first = value second)
    (next : ∀ found, LocalChange registers (change found)) :
    LocalChange registers fun machine => change (value machine) machine where
  keeps machine := (next (value machine)).keeps machine
  alike {first second} agree := by
    rw [same agree]
    exact (next (value second)).alike agree

theorem push (stack : Gpr.rsp ∈ registers) (value : Int) :
    LocalChange registers (·.push value) :=
  of_value (·.stackPointer - 8) (fun agree => congrArg (· - 8) (agree.stackPointer stack))
    fun address => (store address .quad value).comp (setStackPointer stack address)

theorem raise (stack : Gpr.rsp ∈ registers) :
    LocalChange registers fun machine => machine.setStackPointer (machine.stackPointer + 8) :=
  of_value (·.stackPointer + 8) (fun agree => congrArg (· + 8) (agree.stackPointer stack))
    (setStackPointer stack)

end LocalChange

namespace LocalRun

variable {Failure : Type}

theorem failing (cause : Failure) :
    LocalRun registers fun _ => (.error cause : Except Failure Machine) where
  keeps := nofun
  alike _ := .failed cause

theorem of_change {change : Machine → Machine} (confined : LocalChange registers change) :
    LocalRun registers fun machine => (.ok (change machine) : Except Failure Machine) where
  keeps {machine _} run register outside := by
    obtain rfl := Except.ok.inj run
    exact confined.keeps machine register outside
  alike same := .succeeded (confined.alike same)

theorem of_value {Value : Type} {run : Value → Machine → Except Failure Machine}
    (value : Machine → Value)
    (same : ∀ {first second : Machine}, first.AgreeOn registers second →
      value first = value second)
    (next : ∀ found, LocalRun registers (run found)) :
    LocalRun registers fun machine => run (value machine) machine where
  keeps {machine _} := (next (value machine)).keeps
  alike {first second} agree := by
    rw [same agree]
    exact (next (value second)).alike agree

/-- What is read first may be used in what follows. -/
theorem of_read {Value : Type} {read : Machine → Except Failure Value}
    {run : Value → Machine → Except Failure Machine}
    (same : ∀ {first second : Machine}, first.AgreeOn registers second →
      read first = read second)
    (next : ∀ {machine found}, read machine = .ok found → LocalRun registers (run found)) :
    LocalRun registers fun machine => read machine >>= fun found => run found machine where
  keeps done := by
    obtain ⟨found, possible, done⟩ := exists_of_bind_ok done
    exact (next possible).keeps done
  alike {first second} agree := by
    rw [same agree]
    cases possible : read second with
    | error cause => exact .failed cause
    | ok found => exact (next possible).alike agree

theorem of_branch {condition : Machine → Prop} [DecidablePred condition]
    {run other : Machine → Except Failure Machine}
    (same : ∀ {first second : Machine}, first.AgreeOn registers second →
      (condition first ↔ condition second))
    (yes : LocalRun registers run) (no : LocalRun registers other) :
    LocalRun registers fun machine => if condition machine then run machine else other machine where
  keeps {machine _} done := by
    split at done
    · exact yes.keeps done
    · exact no.keeps done
  alike {first second} agree := by
    by_cases holds : condition second
    · simp only [if_pos holds, if_pos ((same agree).mpr holds)]
      exact yes.alike agree
    · simp only [if_neg holds, if_neg ((same agree).not.mpr holds)]
      exact no.alike agree

theorem seq {run next : Machine → Except Failure Machine} (first : LocalRun registers run)
    (second : LocalRun registers next) :
    LocalRun registers fun machine => run machine >>= next where
  keeps done register outside := by
    obtain ⟨middle, run, done⟩ := exists_of_bind_ok done
    exact (second.keeps done register outside).trans (first.keeps run register outside)
  alike agree := (first.alike agree).bind second.alike

theorem mapError {Report : Type} {run : Machine → Except Failure Machine}
    (inner : LocalRun registers run) (tell : Failure → Report) :
    LocalRun registers fun machine => (run machine).mapError tell where
  keeps {machine _} done register outside := by
    cases outcome : run machine with
    | error failure =>
      rw [outcome] at done
      cases done
    | ok next =>
      rw [outcome] at done
      obtain rfl := Except.ok.inj done
      exact inner.keeps outcome register outside
  alike {first second} agree := by
    have both := inner.alike agree
    generalize run first = left at both
    generalize run second = right at both
    cases both with
    | failed failure => exact .failed (tell failure)
    | succeeded same => exact .succeeded same

end LocalRun

section Operands

variable {operand : Operand LabelRef} {first second : Machine}

theorem MemoryRef.address_congr {reference : MemoryRef}
    (inside : ∀ register ∈ (Operand.memory reference : Operand LabelRef).registers,
      register ∈ registers)
    (agree : first.AgreeOn registers second) :
    reference.address first.registers = reference.address second.registers := by
  obtain ⟨displacement, base, index, scale⟩ := reference
  have sameBase := agree.view (inside base.parent (by simp [Operand.registers]))
  cases index with
  | none => simp only [address, RegisterFile.read, sameBase, Option.elim]
  | some register =>
    have sameIndex := agree.view (inside register.parent (by simp [Operand.registers]))
    simp only [address, RegisterFile.read, sameBase, sameIndex, Option.elim]

variable (inside : ∀ register ∈ operand.registers, register ∈ registers)
include inside

theorem Operand.read_congr (size : Size) (labels : LabelTable)
    (agree : first.AgreeOn registers second) :
    operand.read size first labels = operand.read size second labels := by
  cases operand with
  | immediate _ => rfl
  | label _ => rfl
  | register register =>
    have same := agree.view (inside register.parent (by simp [Operand.registers]))
    simp only [read, RegisterFile.readSigned, same]
  | memory reference =>
    simp only [read, MemoryRef.address_congr inside agree, agree.readMemory]

theorem Operand.write_local (size : Size) (value : Int) :
    LocalRun registers (operand.write size value) := by
  cases operand with
  | immediate constant => exact .failing _
  | label reference => exact .failing _
  | register register =>
    exact .of_change (.setRegister (inside _ (by simp [Operand.registers])) value)
  | memory reference =>
    exact .of_change (.of_value _ (MemoryRef.address_congr inside) fun address =>
      .store address size value)

end Operands

end AsmLab
