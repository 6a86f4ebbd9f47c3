import AsmLab.Machine.Flags
import AsmLab.Machine.Memory
import AsmLab.Machine.RegisterFile
import AsmLab.Numeral
/-!
A snapshot of the simulated machine. Its program counter is the number of a source line, and its call
depth goes below zero when the program returns from the top level.
-/
namespace AsmLab

/-- The counters have no bound. The machine that is modelled keeps its program counter and its step in
unsigned words of 64 bits and its call depth in a signed one, so that the two part where a counter
leaves its word. -/
structure Machine where
  registers : RegisterFile
  flags : Flags
  /-- Number of the line to evaluate next. -/
  rip : Nat
  /-- Calls not yet matched by a return. -/
  callDepth : Int
  memory : Memory
  /-- Lines evaluated to reach this snapshot. -/
  step : Nat
  /-- Upper end of the stack. -/
  stackBase : Address

namespace Machine

def defaultStackBase : Address := 0x7ffff0000000

/-- Everything zero but the stack pointer, which is at the stack base. -/
def initial (stackBase : Address) : Machine where
  registers := RegisterFile.zero.set .rsp stackBase
  flags := {}
  rip := 0
  callDepth := 0
  memory := .empty
  step := 0
  stackBase := stackBase

/-- Past the last line, or returned from the top level. -/
def isFinished (machine : Machine) (programLength : Nat) : Bool :=
  programLength ≤ machine.rip || machine.callDepth < 0

def stackPointer (machine : Machine) : Address :=
  machine.registers.get .rsp

def readMemory (machine : Machine) (address : Address) (size : Size) : Int :=
  size.truncate (ofLittleEndian (machine.memory.read address size.bytes))

def setRegister (machine : Machine) (register : Register) (value : Int) : Machine :=
  { machine with registers := machine.registers.write register value }

/-- Stores the low bytes of a number. -/
def store (machine : Machine) (address : Address) (size : Size) (value : Int) : Machine :=
  let bytes := littleEndian size.bytes (size.zeroExtend value).toNat
  { machine with memory := machine.memory.write address bytes machine.step }

def setStackPointer (machine : Machine) (address : Address) : Machine :=
  { machine with registers := machine.registers.set .rsp address }

def updateFlags (machine : Machine) (update : FlagUpdate) : Machine :=
  { machine with flags := update.apply machine.flags }

def jump (machine : Machine) (line : Nat) : Machine :=
  { machine with rip := line }

def advance (machine : Machine) : Machine :=
  machine.jump (machine.rip + 1)

def adjustDepth (machine : Machine) (change : Int) : Machine :=
  { machine with callDepth := machine.callDepth + change }

def countStep (machine : Machine) : Machine :=
  { machine with step := machine.step + 1 }

/-- Registers in pairs, then the program counter, the call depth and the flags. -/
def cpuText (machine : Machine) : String :=
  "CPU State:\n" ++ String.join (rows Gpr.all) ++
    "  RIP: line " ++ Numeral.decimal machine.rip ++
    "  depth: " ++ Numeral.signed machine.callDepth ++ "\n" ++
    "  FLAGS: ZF=" ++ digit machine.flags.zero ++ " SF=" ++ digit machine.flags.sign ++
    " OF=" ++ digit machine.flags.overflow ++ " CF=" ++ digit machine.flags.carry
where
  digit (flag : Bool) : String := Numeral.decimal flag.toNat
  entry (register : Gpr) : String :=
    Numeral.padRight 4 ' ' (register.upperName ++ ":") ++ " " ++
      Numeral.wordHex (machine.registers.get register)
  rows : List Gpr → List String
    | left :: right :: rest => ("  " ++ entry left ++ "  " ++ entry right ++ "\n") :: rows rest
    | [left] => ["  " ++ entry left ++ "\n"]
    | [] => []

def text (machine : Machine) : String :=
  machine.cpuText ++ "\n  memory: " ++ Numeral.decimal machine.memory.size ++
    " byte(s) written, step " ++ Numeral.decimal machine.step

end Machine

end AsmLab
