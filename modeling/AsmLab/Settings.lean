import AsmLab.Run.Simulation
import AsmLab.Text.Whitespace
import AsmLab.Toml.Document
/-!
Settings of a batch run, read from a TOML document and written back as one. Addresses and register
values are hexadecimal strings, since TOML integers end before 64-bit words do.
-/
namespace AsmLab

open Toml (Node Entries)

/-- What to do with a line instead of evaluating it. -/
inductive LineAction where
  | skip
  deriving DecidableEq, Repr

/-- Actions by line number. -/
abbrev LineActions := Std.ExtTreeMap Nat (List LineAction)

structure Settings where
  /-- Lines to stop in front of. -/
  breakpoints : List Nat := []
  stackBase : Address := Machine.defaultStackBase
  /-- Registers with an initial value. -/
  registers : Gpr → Option (BitVec 64) := fun _ => none
  lineActions : LineActions := ∅
  stepsPerRun : Nat := 100
  maxRuns : Nat := 100

namespace Settings

/-- An entry whose text is not what its place needs. -/
inductive Problem where
  | emptyHex (text : String)
  | badHex (text : String) (reason : Numeral.Error)
  | unknownRegister (name : String)
  | narrowRegister (register : Register)
  | badLineNumber (text : String) (reason : Numeral.Error)
  deriving DecidableEq, Repr

def Problem.message : Problem → String
  | .emptyHex text => "Empty hex value '" ++ text ++ "'"
  | .badHex text reason => "Bad hex value '" ++ text ++ "': " ++ reason.message
  | .unknownRegister name => "Unknown register name: " ++ name
  | .narrowRegister register =>
    "Only 64-bit registers can be seeded, use " ++ register.parent.full.text ++ " instead of " ++
      register.text
  | .badLineNumber text reason => "Invalid line number '" ++ text ++ "': " ++ reason.message

inductive Error where
  /-- No TOML document, or a value of the wrong type. -/
  | malformed
  | entry (problem : Problem)
  | noSteps
  deriving DecidableEq, Repr

def Error.message : Error → String
  | .malformed => "malformed settings"
  | .entry problem => problem.message
  | .noSteps => "run.steps_per_run must be at least 1"

/-- What follows an optional hexadecimal marker. -/
def dropHexMarker : List Char → List Char
  | '0' :: 'x' :: digits => digits
  | '0' :: 'X' :: digits => digits
  | digits => digits

/-- A 64-bit word in hexadecimal. Surrounding whitespace, a marker and underscores are allowed. -/
def readHex (text : String) : Except Problem (BitVec 64) :=
  let digits := (dropHexMarker (Text.trim text.toList)).filter (· ≠ '_')
  match Numeral.readBelow 16 Numeral.wordLimit digits with
  | .ok number => .ok (BitVec.ofNat 64 number)
  | .error .empty => .error (.emptyHex text)
  | .error reason => .error (.badHex text reason)

/-- The name of a 64-bit register, with or without its percent sign. -/
def readRegisterName (name : String) : Except Problem Gpr :=
  let bare :=
    match name.toList with
    | '%' :: bare => String.ofList bare
    | _ => name
  match Register.ofName? bare with
  | none => .error (.unknownRegister name)
  | some register => if register.size = .quad then .ok register.parent else .error (.narrowRegister register)

def readLineNumber (text : String) : Except Problem Nat :=
  match Numeral.readBelow 10 Numeral.wordLimit text.toList with
  | .ok number => .ok number
  | .error reason => .error (.badLineNumber text reason)

def orEntry {Result : Type} : Except Problem Result → Except Error Result
  | .ok result => .ok result
  | .error problem => .error (.entry problem)

def readNatural : Node → Except Error Nat
  | .integer (.ofNat number) => .ok number
  | _ => .error .malformed

def readString : Node → Except Error String
  | .string text => .ok text
  | _ => .error .malformed

/-- The items of an array of values or of tables. -/
def readItems : Node → Except Error (List Node)
  | .array items => .ok items
  | .elements tables => .ok (tables.map (Node.table .heading))
  | _ => .error .malformed

/-- Fields by name. An array gives its items to the fields in their order. -/
def readRecord (fields : List String) : Node → Except Error Entries
  | .table _ entries => .ok entries
  | node => do return fields.zip (← readItems node)

/-- An action is a table with a type, or an array of the type alone. -/
def readAction : Node → Except Error LineAction
  | .table _ entries =>
    match entries.lookup "type" with
    | some (.string "skip") => .ok .skip
    | _ => .error .malformed
  | .array [.string "skip"] => .ok .skip
  | _ => .error .malformed

/-- Entries by ascending key. -/
def sortKeys {Item : Type} (entries : List (String × Item)) : List (String × Item) :=
  entries.mergeSort fun first second => first.1 ≤ second.1

/-- Reads what every key of a table holds, and gives the results by ascending key. -/
def readTable {Item : Type} (readItem : Node → Except Error Item) :
    Node → Except Error (List (String × Item))
  | .table _ entries => do
    return sortKeys (← entries.mapM fun (key, node) => do return (key, ← readItem node))
  | _ => .error .malformed

def assign (registers : Gpr → Option (BitVec 64)) (register : Gpr) (word : BitVec 64) :
    Gpr → Option (BitVec 64) :=
  fun other => if other = register then some word else registers other

/-- Register values by name; of two spellings of a name the later one counts. -/
def readRegisters (node : Node) : Except Error (Gpr → Option (BitVec 64)) := do
  let entries ← readTable readString node
  entries.foldlM
    (fun registers (name, text) => do
      let register ← orEntry (readRegisterName name)
      return assign registers register (← orEntry (readHex text)))
    fun _ => none

/-- Actions by line number. A line without an action is left out. -/
def readLineActions (node : Node) : Except Error LineActions := do
  let entries ← readTable (fun item => do (← readItems item).mapM readAction) node
  entries.foldlM
    (fun lineActions (text, actions) => do
      let line ← orEntry (readLineNumber text)
      return if actions.isEmpty then lineActions else lineActions.insert line actions)
    ∅

def readStackField (settings : Settings) (entry : String × Node) : Except Error Settings := do
  if entry.1 = "base_address" then
    return { settings with stackBase := ← orEntry (readHex (← readString entry.2)) }
  else return settings

def readRunField (settings : Settings) (entry : String × Node) : Except Error Settings := do
  if entry.1 = "steps_per_run" then
    return { settings with stepsPerRun := ← readNatural entry.2 }
  else if entry.1 = "max_runs" then return { settings with maxRuns := ← readNatural entry.2 }
  else return settings

/-- Reads one entry at the top of a document. Unknown keys are ignored. -/
def readField (settings : Settings) (entry : String × Node) : Except Error Settings := do
  let (key, node) := entry
  if key = "breakpoints" then
    return { settings with breakpoints := ← (← readItems node).mapM readNatural }
  else if key = "stack" then (← readRecord ["base_address"] node).foldlM readStackField settings
  else if key = "registers" then return { settings with registers := ← readRegisters node }
  else if key = "line_actions" then return { settings with lineActions := ← readLineActions node }
  else if key = "run" then
    (← readRecord ["steps_per_run", "max_runs"] node).foldlM readRunField settings
  else return settings

/-- Settings from the text of a document, its entries in the order in which they are defined. -/
def load (text : String) : Except Error Settings := do
  match Entries.read? text with
  | none => throw .malformed
  | some entries =>
    let settings ← entries.foldlM readField {}
    if settings.stepsPerRun = 0 then throw .noSteps
    return settings

def hexValue (word : BitVec 64) : Toml.Value :=
  .string (Numeral.markedHex word.toNat)

def registerStatements (registers : Gpr → Option (BitVec 64)) : List Toml.Statement :=
  let given := Gpr.all.filterMap fun register =>
    (registers register).map fun word => (register.name, word)
  .table ["registers"] :: (sortKeys given).map fun (name, word) => .pair [name] (hexValue word)

def actionStatements (line : String) (action : LineAction) : List Toml.Statement :=
  match action with
  | .skip => [.element ["line_actions", line], .pair ["type"] (.string "skip")]

/-- Line numbers are keys and therefore ordered as texts. Only without actions is there a heading for
all of them. -/
def lineActionStatements (lineActions : LineActions) : List Toml.Statement :=
  let byKey := sortKeys (lineActions.toList.map fun (line, actions) => (Numeral.decimal line, actions))
  if byKey.isEmpty then [.table ["line_actions"]]
  else byKey.flatMap fun (line, actions) => actions.flatMap (actionStatements line)

def statements (settings : Settings) : List Toml.Statement :=
  [.pair ["breakpoints"] (.array (settings.breakpoints.map fun line : Nat => .integer line)),
    .table ["stack"], .pair ["base_address"] (hexValue settings.stackBase)] ++
  registerStatements settings.registers ++ lineActionStatements settings.lineActions ++
  [.table ["run"], .pair ["steps_per_run"] (.integer settings.stepsPerRun),
    .pair ["max_runs"] (.integer settings.maxRuns)]

/-- The document that describes the settings. -/
def save (settings : Settings) : String :=
  Toml.render settings.statements

/-- Settings that show every field. -/
def sample : Settings where
  breakpoints := [5]
  registers := assign (assign (fun _ => none) .rdi 0x2a) .rsi 0x10
  lineActions := Std.ExtTreeMap.ofList [(3, [LineAction.skip])]

def limits (settings : Settings) : RunLimits :=
  ⟨settings.stepsPerRun, settings.stackBase⟩

/-- The initial machine with the given register values. -/
def initialMachine (settings : Settings) : Machine :=
  Gpr.all.foldl
    (fun machine register =>
      (settings.registers register).elim machine fun word =>
        { machine with registers := machine.registers.set register word })
    (Machine.initial settings.stackBase)

/-- A simulation of a program as the settings ask for. A breakpoint past the end of the program is
ignored, and one that is listed twice is taken back. -/
def prepare (settings : Settings) (source : String) : Except (List SourceError) Simulation := do
  let program ← Program.ofSource source
  let marked := settings.breakpoints.foldl
    (fun program line => if line < program.length then program.toggleBreakpoint line else program)
    program
  return .startingFrom marked settings.initialMachine settings.limits

end Settings

end AsmLab
