import AsmLab.Report.Style
import AsmLab.Run.View
/-!
The state of a simulation and the errors of a source text as the terminal shows them.
-/
namespace AsmLab.Report

/-- A register or a slot that was touched within this many steps stands out. -/
def recentRank : Nat := 3

def rankStyle : Option Nat → Style
  | some 0 => .brightGreenBold
  | some rank => if rank < recentRank then .green else .plain
  | none => .plain

def registerCell (coloured : Bool) (view : RegisterView) : String :=
  Numeral.padLeft 5 ' ' view.name ++ " " ++
    (rankStyle view.rank).paint coloured (Numeral.wordHex view.value)

/-- Two registers a row. -/
def registers (coloured : Bool) : List RegisterView → String
  | left :: right :: rest =>
    "  " ++ registerCell coloured left ++ "   " ++ registerCell coloured right ++ "\n" ++
      registers coloured rest
  | [last] => "  " ++ registerCell coloured last ++ "\n"
  | [] => ""

def flags (coloured : Bool) (flags : Flags) : String :=
  "  " ++ cell "ZF" flags.zero ++ " " ++ cell "SF" flags.sign ++ " " ++
    cell "OF" flags.overflow ++ " " ++ cell "CF" flags.carry ++ "\n"
where
  cell (name : String) (set : Bool) : String :=
    (if set then Style.brightCyan else .brightBlack).paint coloured
      (name ++ "=" ++ Numeral.decimal set.toNat)

def stackRow (coloured : Bool) (slot : StackSlot) : String :=
  "  " ++ Style.yellow.paint coloured (Numeral.wordHex slot.start) ++ "  " ++
    (rankStyle slot.rank).paint coloured (Numeral.wordHex slot.value) ++ "\n"

/-- Highest address first. -/
def stack (coloured : Bool) (slots : List StackSlot) : String :=
  if slots.isEmpty then "  " ++ Style.brightBlack.paint coloured "(empty)" ++ "\n"
  else String.join (slots.reverse.map (stackRow coloured))

/-- Registers, flags and stack under their headings. -/
def state (coloured : Bool) (simulation : Simulation) : String :=
  Style.bold.paint coloured "Registers" ++ "\n" ++ registers coloured simulation.registers ++
    Style.bold.paint coloured "Flags" ++ "\n" ++ flags coloured simulation.current.flags ++
    Style.bold.paint coloured "Stack" ++ "\n" ++ stack coloured simulation.stack

/-- Start and width of the underline of an error. At least one column is underlined. -/
def underline (error : SourceError) : Nat × Nat :=
  let length := error.text.length
  let start := min error.error.span.start length
  let stop := max start (min error.error.span.stop length)
  (start, max 1 (stop - start))

/-- The rejected line with the columns that its error is about underlined. -/
def sourceError (coloured : Bool) (error : SourceError) : String :=
  let (start, width) := underline error
  Style.redBold.paint coloured "error:" ++ " line " ++ Numeral.decimal error.line ++ ": " ++
    error.error.message ++ "\n  " ++ error.text ++ "\n  " ++
    String.ofList (List.replicate start ' ') ++
    Style.redBold.paint coloured (String.ofList (List.replicate width '^'))

end AsmLab.Report
