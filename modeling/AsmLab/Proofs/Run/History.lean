import AsmLab.Proofs.Run.Operations

/-! What the history of a simulation looks like after any calls. Every step leads from one machine to
the next, and without an edit it is a step of the program that is there. -/
namespace AsmLab.Simulation

/-- The machine that a trail leads to. -/
def latest (initial : Machine) (trail : List Reached) : Machine :=
  (trail.head?.map Reached.machine).getD initial

/-- The machines along a trail, from the initial one on. -/
def path (initial : Machine) (trail : List Reached) : List Machine :=
  initial :: trail.reverse.map Reached.machine

variable {initial : Machine} {trail : List Reached} {reached : Reached}

theorem path_cons : path initial (reached :: trail) = path initial trail ++ [reached.machine] := by
  simp [path]

theorem path_eq : path initial trail = (path initial trail).dropLast ++ [latest initial trail] := by
  cases trail with
  | nil => rfl
  | cons => rw [path_cons, List.dropLast_concat]; rfl

@[simp]
theorem length_path : (path initial trail).length = trail.length + 1 := by
  simp [path]

theorem getElem?_path_length : (path initial trail)[trail.length]? = some (latest initial trail) := by
  have length : (path initial trail).dropLast.length = trail.length := by simp
  rw [path_eq, ← length, List.getElem?_concat_length]

/-- Each machine of the trail leads to the next. -/
inductive Follows (leads : Machine → Reached → Prop) (initial : Machine) : List Reached → Prop where
  | start : Follows leads initial []
  | step {trail : List Reached} {reached : Reached} (earlier : Follows leads initial trail)
      (lead : leads (latest initial trail) reached) : Follows leads initial (reached :: trail)

namespace Follows

variable {leads other : Machine → Reached → Prop} (follows : Follows leads initial trail)
include follows

theorem imp (weaker : ∀ before reached, leads before reached → other before reached) :
    Follows other initial trail := by
  induction follows with
  | start => exact .start
  | step _ lead ih => exact .step ih (weaker _ _ lead)

/-- What the initial machine has and every step hands on, all machines have. -/
theorem all {Holds : Machine → Prop} (start : Holds initial)
    (handsOn : ∀ before reached, leads before reached → Holds before → Holds reached.machine) :
    ∀ machine ∈ path initial trail, Holds machine := by
  induction follows with
  | start => exact List.forall_mem_singleton.mpr start
  | step earlier lead ih =>
    rw [path_cons]
    refine List.forall_mem_append.mpr ⟨ih, List.forall_mem_singleton.mpr ?_⟩
    apply handsOn _ _ lead
    apply ih
    rw [path_eq]
    exact List.mem_concat_self

/-- What every machine has that leads on, all but the last one have. -/
theorem all_dropLast {Holds : Machine → Prop}
    (needed : ∀ before reached, leads before reached → Holds before) :
    ∀ machine ∈ (path initial trail).dropLast, Holds machine := by
  induction follows with
  | start => exact List.forall_mem_nil _
  | step earlier lead ih =>
    rw [path_cons, List.dropLast_concat, path_eq]
    exact List.forall_mem_append.mpr ⟨ih, List.forall_mem_singleton.mpr (needed _ _ lead)⟩

theorem isChain {related : Machine → Machine → Prop}
    (relates : ∀ before reached, leads before reached → related before reached.machine) :
    (path initial trail).IsChain related := by
  induction follows with
  | start => exact .singleton initial
  | step earlier lead ih =>
    rw [path_cons]
    refine ih.append (.singleton _) ?_
    rw [path_eq]
    simpa using relates _ _ lead

/-- The entry of the usage history belongs to the step at its position. -/
theorem leads_at {index : Nat} {before after : Machine} {used : List Gpr}
    (first : (path initial trail)[index]? = some before)
    (second : (path initial trail)[index + 1]? = some after)
    (entry : (trail.reverse.map Reached.used)[index]? = some used) :
    leads before ⟨after, used⟩ := by
  induction follows with
  | start => cases entry
  | @step trail reached earlier lead ih =>
    have bound := (List.getElem?_eq_some_iff.mp entry).1
    rw [List.length_map, List.length_reverse, List.length_cons] at bound
    rw [path_cons, List.getElem?_append_left (by simpa using bound)] at first
    rw [List.reverse_cons, List.map_append] at entry
    -- Both histories grow at their end, so only the latest entry belongs to the new step.
    by_cases old : index < trail.length
    · rw [path_cons, List.getElem?_append_left (by simpa using old)] at second
      rw [List.getElem?_append_left (by simpa using old)] at entry
      exact ih first second entry
    · obtain rfl : index = trail.length := by omega
      obtain rfl := Option.some.inj (getElem?_path_length.symm.trans first)
      rw [path_cons, ← length_path, List.getElem?_concat_length] at second
      have last : trail.length = (trail.reverse.map Reached.used).length := by simp
      rw [last, List.map_singleton, List.getElem?_concat_length] at entry
      obtain rfl := Option.some.inj second
      obtain rfl := Option.some.inj entry
      exact lead

end Follows

/-- What all histories have in common, whatever was edited. -/
structure Recorded (initial : Machine) (simulation : Simulation) : Prop where
  head : simulation.history.head? = some initial
  usage : simulation.history.length = simulation.usageHistory.length + 1
  counted : simulation.history.IsChain fun before after => after.step = before.step + 1
  stackBase : ∀ machine ∈ simulation.history, machine.stackBase = initial.stackBase
  inside : ∀ machine ∈ simulation.history.dropLast, 0 ≤ machine.callDepth
  last : ∀ machine ∈ simulation.history.getLast?, -1 ≤ machine.callDepth

/-- The program passes a line that leads from a machine to what was reached, and lines lead no further
than just behind the last one. -/
structure Justified (simulation : Simulation) : Prop where
  steps : ∀ index before after used, simulation.history[index]? = some before →
    simulation.history[index + 1]? = some after → simulation.usageHistory[index]? = some used →
      ∃ decision line, simulation.program.Step before decision line ⟨after, used⟩
  bounded : simulation.initial.rip ≤ simulation.program.length →
    ∀ machine ∈ simulation.history, machine.rip ≤ simulation.program.length

/-- Every step of the trail is one of some program, and of the present program if nothing was edited. -/
structure Traced (initial : Machine) (edited : Bool) (simulation : Simulation) : Prop where
  initial_eq : simulation.initial = initial
  stepped : Follows (fun before reached =>
    ∃ program decision line, Program.Step program before decision line reached)
      initial simulation.trail
  unedited : edited = false → Follows (fun before reached =>
    ∃ decision line, simulation.program.Step before decision line reached)
      initial simulation.trail

theorem Follows.tail {leads : Machine → Reached → Prop}
    (follows : Follows leads initial (reached :: trail)) : Follows leads initial trail := by
  cases follows with
  | step earlier => exact earlier

theorem traced_preserved : Preserved (Traced initial) where
  passed := by
    rintro edited simulation decision line reached ⟨rfl, stepped, unedited⟩ step
    exact ⟨rfl, stepped.step ⟨_, _, _, step⟩, fun same => (unedited same).step ⟨_, _, step⟩⟩
  failed traced _ := ⟨traced.initial_eq, traced.stepped, traced.unedited⟩
  takenBack := by
    rintro edited simulation reached earlier ⟨rfl, stepped, unedited⟩ trail
    rw [trail] at stepped unedited
    exact ⟨rfl, stepped.tail, fun same => (unedited same).tail⟩
  restarted traced := ⟨traced.initial_eq, .start, fun _ => .start⟩
  edited traced _ := ⟨traced.initial_eq, traced.stepped, nofun⟩
  toggled index traced := by
    refine ⟨traced.initial_eq, traced.stepped, fun same => (traced.unedited same).imp ?_⟩
    rintro before reached ⟨decision, line, step⟩
    exact ⟨decision, step.toggleBreakpoint index⟩

variable {program : Program} {limits : RunLimits} {edited : Bool} {simulation : Simulation}

theorem Reachable.traced (sound : program.Sound)
    (reached : Reachable program initial limits edited simulation) :
    simulation.Traced initial edited :=
  reached.holds sound traced_preserved ⟨rfl, .start, fun _ => .start⟩

theorem Traced.stackBase_eq  (traced : simulation.Traced initial edited) :
    ∀ machine ∈ simulation.history, machine.stackBase = initial.stackBase := by
  obtain ⟨rfl, stepped, _⟩ := traced
  refine stepped.all rfl ?_
  rintro before reached ⟨_, _, _, step⟩ same
  exact step.frame.2.1.trans same

theorem Traced.recorded (traced : simulation.Traced initial edited) (top : initial.callDepth = 0) :
    simulation.Recorded initial := by
  have based := traced.stackBase_eq
  obtain ⟨rfl, stepped, _⟩ := traced
  have counted : simulation.history.IsChain fun before after => after.step = before.step + 1 := by
    refine stepped.isChain ?_
    rintro before reached ⟨_, _, _, step⟩
    exact step.frame.1
  have inside : ∀ machine ∈ simulation.history.dropLast, 0 ≤ machine.callDepth := by
    refine stepped.all_dropLast ?_
    rintro before reached ⟨_, _, _, step⟩
    exact step.inside
  have deep : ∀ machine ∈ simulation.history, -1 ≤ machine.callDepth := by
    refine stepped.all (by omega) ?_
    rintro before reached ⟨_, _, _, step⟩ _
    have before := step.inside
    have after := step.frame.2.2
    omega
  refine ⟨rfl, ?_, counted, based, inside, ?_⟩
  · simp [history, usageHistory]
  · intro machine last
    exact deep machine (List.mem_of_getLast? last)

theorem Traced.justified (traced : simulation.Traced initial false)
    (sound : simulation.program.Sound) : simulation.Justified := by
  obtain ⟨rfl, _, unedited⟩ := traced
  have follows := unedited rfl
  refine ⟨?_, ?_⟩
  · intro index before after used first second entry
    exact follows.leads_at first second entry
  · intro start
    refine follows.all start ?_
    rintro before reached ⟨_, _, step⟩ _
    exact step.rip_le sound

/-- However a simulation was stepped, run, taken back and edited, its history is a record of single
steps, and as long as no edit succeeds since the last restart they are steps of its program. -/
theorem Reachable.history_justified (built : program.Reachable) (top : initial.callDepth = 0)
    (reached : Reachable program initial limits edited simulation) :
    simulation.Recorded initial ∧ (edited = false → simulation.Justified) := by
  have traced := reached.traced built.sound
  refine ⟨traced.recorded top, ?_⟩
  rintro rfl
  exact traced.justified (reached.program_sound built.sound)

/-- A run into a loop, a step back and a breakpoint. -/
theorem recorded_loop :
    let program := ((Program.empty.edit (.push "top:")).edit (.push "incq %rax")).edit
      (.push "jmp top")
    let machine := Machine.initial Machine.defaultStackBase
    let simulation := (((startingFrom program machine ⟨5, Machine.defaultStackBase⟩).perform
      (.run (Observer.silent Unit) ())).perform .stepBackward).perform (.toggleBreakpoint 1)
    simulation.history.length = 5 ∧ simulation.Recorded machine ∧ simulation.Justified := by
  intro program machine simulation
  have built : program.Reachable := .edited (.edited (.edited .start _) _) _
  have fresh : Reachable program machine ⟨5, Machine.defaultStackBase⟩ false _ := .start
  have reached := ((fresh.performed (.run (Observer.silent Unit) ())).performed
    .stepBackward).performed (.toggleBreakpoint 1)
  have facts := reached.history_justified built rfl
  exact ⟨by decide +kernel, facts.1, facts.2 rfl⟩

end AsmLab.Simulation
