import AsmLab.Run.Batch
import AsmLab.Run.View
import AsmLab.Toml.Syntax
/-!
The final state of a run as a TOML document. TOML integers are signed 64-bit numbers, so a number
beyond them cannot be dumped.
-/
namespace AsmLab.Dump

inductive Error where
  | outOfRange
  deriving DecidableEq, Repr

def Error.message : Error → String
  | .outOfRange => "out-of-range value for u64 type"

def natural (number : Nat) : Except Error Toml.Value :=
  if number < Numeral.signedLimit then .ok (.integer number) else .error .outOfRange

/-- A rank is left out if there is none. -/
def rankPair (rank : Option Nat) : Except Error (List Toml.Statement) :=
  match rank with
  | none => .ok []
  | some rank => do return [.pair ["rank"] (← natural rank)]

def registerStatements (view : RegisterView) : Except Error (List Toml.Statement) := do
  return [.element ["registers"], .pair ["register"] (.string view.register.upperName),
    .pair ["name"] (.string view.name), .pair ["hex"] (.string (Numeral.wordHex view.value))] ++
    (← rankPair view.rank)

def slotStatements (slot : StackSlot) : Except Error (List Toml.Statement) := do
  return [.element ["stack"], .pair ["start"] (← natural slot.start.toNat),
    .pair ["end"] (← natural slot.stop), .pair ["hex"] (.string (Numeral.wordHex slot.value))] ++
    (← rankPair slot.rank)

def flagStatements (flags : Flags) : List Toml.Statement :=
  [.table ["flags"], .pair ["zf"] (.boolean flags.zero), .pair ["sf"] (.boolean flags.sign),
    .pair ["of"] (.boolean flags.overflow), .pair ["cf"] (.boolean flags.carry)]

/-- An empty stack is a value and therefore comes before all headings. -/
def statements (simulation : Simulation) (outcome : BatchOutcome) :
    Except Error (List Toml.Statement) := do
  let machine := simulation.current
  let summary : List Toml.Statement :=
    [.pair ["outcome"] (.string outcome.text), .pair ["steps"] (← natural machine.step),
      .pair ["rip"] (← natural machine.rip), .pair ["call_depth"] (.integer machine.callDepth)]
  let registers ← simulation.registers.mapM registerStatements
  let slots ← simulation.stack.mapM slotStatements
  let noStack : List Toml.Statement := if slots.isEmpty then [.pair ["stack"] (.array [])] else []
  return summary ++ noStack ++ flagStatements machine.flags ++ registers.flatten ++ slots.flatten

def render (simulation : Simulation) (outcome : BatchOutcome) : Except Error String := do
  return Toml.render (← statements simulation outcome)

end AsmLab.Dump
