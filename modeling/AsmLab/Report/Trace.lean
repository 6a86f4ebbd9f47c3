import AsmLab.Report.State
import AsmLab.Run.Batch
import AsmLab.Settings
/-!
The trace of a run: a row for each instruction with the registers and flags that it changed. Lines
without an instruction are counted and not shown.
-/
namespace AsmLab

/-- What a run has written so far, and how many lines it has passed. -/
structure Transcript where
  lineCount : Nat := 0
  output : String := ""
  deriving DecidableEq, Repr

def Transcript.write (transcript : Transcript) (text : String) : Transcript :=
  { transcript with output := transcript.output ++ text }

structure Tracer where
  enabled : Bool
  coloured : Bool
  actions : LineActions

namespace Tracer

def isSkipped (tracer : Tracer) (line : Nat) : Bool :=
  ((tracer.actions[line]?).getD []).contains .skip

/-- The 64-bit registers whose contents differ, with the old and the new contents. -/
def changedRegisters (before after : Machine) : List (Gpr × BitVec 64 × BitVec 64) :=
  Gpr.all.filterMap fun register =>
    let old := before.registers.get register
    let new := after.registers.get register
    if old = new then none else some (register, old, new)

def changeText (change : Gpr × BitVec 64 × BitVec 64) : String :=
  let (register, old, new) := change
  register.upperName ++ "=" ++ Numeral.hex old.toNat ++ "->" ++ Numeral.hex new.toNat

/-- The flags after a step, unless they are the same as before. -/
def changedFlags (before after : Machine) : Option Flags :=
  if before.flags = after.flags then none else some after.flags

/-- The row of the `count`-th line of a run. -/
def row (tracer : Tracer) (count : Nat) (line : Line) (before after : Machine) : String :=
  let coloured := tracer.coloured
  let number := Style.yellow.paint coloured (Numeral.padLeft 4 ' ' (Numeral.decimal line.number))
  let text :=
    if tracer.isSkipped line.number then
      Style.brightBlack.paintLaidOut coloured column (line.text ++ " (skipped)")
    else Style.redBold.paintLaidOut coloured column line.text
  let changes := String.intercalate " " ((changedRegisters before after).map changeText)
  let flags := (changedFlags before after).elim "" (Style.brightCyan.paint coloured ·.letters)
  Style.brightBlack.paint coloured
      ("[" ++ Numeral.padLeft 6 '0' (Numeral.decimal count) ++ "]") ++
    " " ++ number ++ ": " ++ text ++ " | " ++ Style.brightBlue.paint coloured changes ++ " " ++
    flags ++ "\n"
where
  column : String → String := Numeral.padRight 32 ' '

def onLine (tracer : Tracer) (line : Line) : LineDecision :=
  if tracer.isSkipped line.number then .skip else .proceed

def onStep (tracer : Tracer) (line : Line) (before after : Machine) (transcript : Transcript) :
    Transcript :=
  let count := transcript.lineCount + 1
  let counted := { transcript with lineCount := count }
  if tracer.enabled && line.instruction?.isSome then
    counted.write (tracer.row count line before after)
  else counted

def onFault (tracer : Tracer) (fault : Fault) (transcript : Transcript) : Transcript :=
  if tracer.enabled then
    transcript.write (Style.redBold.paint tracer.coloured "[FAULT]" ++ " " ++ fault.message ++ "\n")
  else transcript

/-- Skips the lines whose actions say so and writes the trace. -/
def observer (tracer : Tracer) : Observer Transcript where
  onLine line _ transcript := (tracer.onLine line, transcript)
  onStep := tracer.onStep
  onFault := tracer.onFault

end Tracer

end AsmLab
