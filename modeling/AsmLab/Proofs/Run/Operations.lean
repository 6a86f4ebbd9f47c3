import AsmLab.Proofs.Program.RejectedEdits
import AsmLab.Proofs.Run.BoundedRun

/-! The calls on a simulation, and the simulations that any sequence of calls leads to. All calls are
made of a few changes, and what every change preserves holds after any sequence of calls. -/
namespace AsmLab.Simulation

/-- A call on a simulation. Indexes, texts and observers are arbitrary. -/
inductive Operation where
  | stepForward
  | stepBackward
  | restart
  | run {State : Type} (observer : Observer State) (state : State)
  | insertLine (index : Nat) (text : String)
  | replaceLine (index : Nat) (text : String)
  | removeLine (index : Nat)
  | toggleBreakpoint (index : Nat)

/-- The simulation after a call, whatever the call returned. -/
def perform (simulation : Simulation) : Operation → Simulation
  | .stepForward => simulation.stepForward.2
  | .stepBackward => simulation.stepBackward.2
  | .restart => simulation.restart
  | .run observer state => (simulation.run observer state).2.1
  | .insertLine index text => (simulation.insertLine index text).2
  | .replaceLine index text => (simulation.replaceLine index text).2
  | .removeLine index => (simulation.removeLine index).2
  | .toggleBreakpoint index => simulation.toggleBreakpoint index

/-- Whether an edit has succeeded since the last restart, after one more call. -/
def editedAfter (simulation : Simulation) (edited : Bool) : Operation → Bool
  | .restart => false
  | .insertLine index text => edited || (simulation.insertLine index text).1.isOk
  | .replaceLine index text => edited || (simulation.replaceLine index text).1.isOk
  | .removeLine index => edited || (simulation.removeLine index).1
  | _ => edited

/-- Simulations that calls lead to, and whether an edit has succeeded since the last restart. -/
inductive Reachable (program : Program) (initial : Machine) (limits : RunLimits) :
    Bool → Simulation → Prop where
  | start : Reachable program initial limits false (startingFrom program initial limits)
  | performed {edited : Bool} {simulation : Simulation}
      (reached : Reachable program initial limits edited simulation) (operation : Operation) :
      Reachable program initial limits (simulation.editedAfter edited operation)
        (simulation.perform operation)

/-- What every change to a simulation preserves, when it may depend on whether there was an edit. -/
structure Preserved (Holds : Bool → Simulation → Prop) : Prop where
  passed : ∀ {edited simulation decision line reached}, Holds edited simulation →
    simulation.program.Step simulation.current decision line reached →
      Holds edited (simulation.passed decision reached)
  failed : ∀ {edited simulation line fault}, Holds edited simulation →
    simulation.program.Fails simulation.current line fault → Holds edited (simulation.failed fault)
  takenBack : ∀ {edited simulation reached earlier}, Holds edited simulation →
    simulation.trail = reached :: earlier →
      Holds edited { simulation with trail := earlier, fault := none }
  restarted : ∀ {edited simulation}, Holds edited simulation → Holds false simulation.restart
  edited : ∀ {edited simulation} {program : Program}, Holds edited simulation → program.Sound →
    Holds true { simulation with program, fault := none }
  toggled : ∀ {edited simulation} (index : Nat), Holds edited simulation →
    Holds edited (simulation.toggleBreakpoint index)

namespace Preserved

variable {Holds : Bool → Simulation → Prop} (preserved : Preserved Holds) {edited : Bool}
  {simulation : Simulation} (holds : Holds edited simulation)
include preserved holds

theorem stepForward : Holds edited simulation.stepForward.2 := by
  rcases simulation.stepForward_cases with ⟨_, same⟩ | ⟨line, reached, step, same⟩ |
    ⟨line, fault, fails, same⟩
  · rw [same]
    exact holds
  · rw [same]
    exact preserved.passed holds step
  · rw [same]
    exact preserved.failed holds fails

theorem stepBackward : Holds edited simulation.stepBackward.2 := by
  unfold Simulation.stepBackward
  split
  · exact holds
  · rename_i trail
    exact preserved.takenBack holds trail

theorem run {State : Type} (observer : Observer State) (state : State) :
    Holds edited (simulation.run observer state).2.1 := by
  obtain ⟨passages, told, result, last, final, course⟩ :=
    exists_course observer simulation.limits.maxSteps false simulation state
  rw [course.run_eq]
  exact course.preserves (fun step held => preserved.passed held step)
    (fun fails held => preserved.failed held fails) holds

/-- A successful edit counts, and a rejected one leaves the simulation as it was. -/
theorem ofEdit {edit : Except Source.ParseError Unit × Program} (kept : edit.2.Sound)
    (unchanged : ∀ {error rest}, edit = (.error error, rest) → rest = simulation.program) :
    Holds (edited || (simulation.edited edit).1.isOk) (simulation.edited edit).2 := by
  obtain ⟨result, program⟩ := edit
  cases result with
  | ok =>
    rw [show (simulation.edited (.ok (), program)).1.isOk = true from rfl, Bool.or_true]
    exact preserved.edited holds kept
  | error error =>
    obtain rfl := unchanged rfl
    rw [show (simulation.edited (.error error, simulation.program)).1.isOk = false from rfl,
      Bool.or_false]
    exact holds

variable (sound : simulation.program.Sound)
include sound

theorem insertLine (index : Nat) (text : String) :
    Holds (edited || (simulation.insertLine index text).1.isOk)
      (simulation.insertLine index text).2 :=
  preserved.ofEdit holds (Program.insert_sound sound index text) sound.indexed.insert_rejected

theorem replaceLine (index : Nat) (text : String) :
    Holds (edited || (simulation.replaceLine index text).1.isOk)
      (simulation.replaceLine index text).2 :=
  preserved.ofEdit holds (Program.replace_sound sound index text) sound.indexed.replace_rejected

theorem removeLine (index : Nat) :
    Holds (edited || (simulation.removeLine index).1) (simulation.removeLine index).2 := by
  have kept := Program.remove_sound sound index
  unfold Simulation.removeLine
  split
  · rename_i removed
    rw [removed] at kept
    rw [Bool.or_true]
    exact preserved.edited holds kept
  · rename_i absent
    obtain rfl := Program.remove_none absent
    rw [Bool.or_false]
    exact holds

theorem perform (operation : Operation) :
    Holds (simulation.editedAfter edited operation) (simulation.perform operation) := by
  cases operation with
  | stepForward => exact preserved.stepForward holds
  | stepBackward => exact preserved.stepBackward holds
  | restart => exact preserved.restarted holds
  | run observer state => exact preserved.run holds observer state
  | insertLine index text => exact preserved.insertLine holds sound index text
  | replaceLine index text => exact preserved.replaceLine holds sound index text
  | removeLine index => exact preserved.removeLine holds sound index
  | toggleBreakpoint index => exact preserved.toggled index holds

end Preserved

variable {program : Program} {initial : Machine} {limits : RunLimits} {edited : Bool}
  {simulation : Simulation}

/-- The program that is simulated stays sound. -/
theorem sound_preserved : Preserved fun _ simulation => simulation.program.Sound where
  passed sound _ := sound
  failed sound _ := sound
  takenBack sound _ := sound
  restarted sound := sound
  edited _ sound := sound
  toggled index sound := Program.modifyLine_sound sound index fun _ => ⟨rfl, rfl⟩

theorem Reachable.program_sound (sound : program.Sound)
    (reached : Reachable program initial limits edited simulation) : simulation.program.Sound := by
  induction reached with
  | start => exact sound
  | @performed edited _ _ operation ih =>
    exact @Preserved.perform _ sound_preserved edited _ ih ih operation

/-- What holds at the start and is preserved by every change holds after any calls. -/
theorem Reachable.holds {Holds : Bool → Simulation → Prop} (sound : program.Sound)
    (preserved : Preserved Holds) (start : Holds false (startingFrom program initial limits))
    (reached : Reachable program initial limits edited simulation) : Holds edited simulation := by
  induction reached with
  | start => exact start
  | performed reached operation ih =>
    exact preserved.perform ih (reached.program_sound sound) operation

end AsmLab.Simulation
