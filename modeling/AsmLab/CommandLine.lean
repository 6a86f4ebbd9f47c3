import AsmLab.Report.Dump
import AsmLab.Report.Trace
/-!
The command line program as a function from its arguments and the files that it may read to what it
prints, the files that it writes and the failure that it ends with.
-/
namespace AsmLab.CommandLine

/-- What the arguments ask for; file arguments are paths. -/
structure Invocation where
  program : Option String := none
  config : Option String := none
  sample : Option String := none
  trace : Bool := false
  dump : Option String := none
  deriving DecidableEq, Repr

inductive Failure where
  | noProgram
  | unreadableConfig (path reason : String)
  | badConfig (path : String) (error : Settings.Error)
  | unreadableProgram (path reason : String)
  | rejectedLines (count : Nat)
  | undumpable (error : Dump.Error)
  | fault (fault : Fault)
  deriving DecidableEq, Repr

/-- A path as messages quote it. -/
def quotedPath (path : String) : String :=
  String.ofList ('"' :: path.toList.flatMap escape ++ ['"'])
where
  escape (char : Char) : List Char :=
    if char = '"' || char = '\\' then ['\\', char] else [char]

def Failure.message : Failure → String
  | .noProgram => "No program file given"
  | .unreadableConfig path reason =>
    "Failed to read config file " ++ quotedPath path ++ ": " ++ reason
  | .badConfig _ .noSteps => Settings.Error.noSteps.message
  | .badConfig path error =>
    "Failed to parse config file " ++ quotedPath path ++ ": " ++ error.message
  | .unreadableProgram path reason =>
    "Failed to read program " ++ quotedPath path ++ ": " ++ reason
  | .rejectedLines count => Numeral.decimal count ++ " line(s) failed to parse"
  | .undumpable error => "Failed to serialize dump: " ++ error.message
  | .fault raised => raised.message

/-- What the program leaves behind. A run without a failure succeeds. -/
structure Response where
  output : String := ""
  /-- Diagnostics that come before the message of the failure. -/
  diagnostics : String := ""
  /-- Paths and contents of the files that are written. -/
  files : List (String × String) := []
  failure : Option Failure := none
  deriving DecidableEq, Repr

def Response.failed (failure : Failure) : Response :=
  { failure := some failure }

/-- Announces a breakpoint and shows the state in front of it. -/
def breakpointReport (coloured : Bool) (simulation : Simulation) (line : Nat) : String :=
  Style.yellowBold.paint coloured "Breakpoint" ++ " before line " ++ Numeral.decimal line ++ ": " ++
    (simulation.program.line? line).elim "" Line.text ++ "\n" ++
    Report.state coloured simulation

def outcomeReport (coloured : Bool) (settings : Settings) (simulation : Simulation) :
    BatchOutcome → String
  | .finished =>
    Style.greenBold.paint coloured "Finished" ++ " after " ++
      Numeral.decimal simulation.current.step ++ " step(s)\n"
  | .fault fault => Style.redBold.paint coloured "Fault" ++ " " ++ fault.message ++ "\n"
  | .stopped => Style.yellowBold.paint coloured "Stopped" ++ "\n"
  | .exhausted =>
    Style.yellowBold.paint coloured "Gave up" ++ " after " ++ Numeral.decimal settings.maxRuns ++
      " run(s) of " ++ Numeral.decimal settings.stepsPerRun ++ " step(s)\n"

/-- The files that a run leaves behind, and the failure that it ends with. -/
def conclude (dump : Option String) (simulation : Simulation) (outcome : BatchOutcome) :
    List (String × String) × Option Failure :=
  let failure :=
    match outcome with
    | .fault fault => some (.fault fault)
    | _ => none
  match dump with
  | none => ([], failure)
  | some path =>
    match Dump.render simulation outcome with
    | .ok contents => ([(path, contents)], failure)
    | .error error => ([], some (.undumpable error))

/-- Runs a prepared simulation to its end. -/
def execute (coloured : Bool) (invocation : Invocation) (settings : Settings)
    (simulation : Simulation) : Response :=
  let tracer : Tracer := ⟨invocation.trace, coloured, settings.lineActions⟩
  let onBreak (simulation : Simulation) (line : Nat) (transcript : Transcript) : Transcript :=
    transcript.write (breakpointReport coloured simulation line)
  let (outcome, simulation, transcript) :=
    simulation.runBatch tracer.observer onBreak settings.maxRuns {}
  let output := transcript.output ++ (if invocation.trace then "\n" else "") ++
    outcomeReport coloured settings simulation outcome ++ Report.state coloured simulation
  let (files, failure) := conclude invocation.dump simulation outcome
  { output, files, failure }

/-- Reads the program and runs it. -/
def runProgram (coloured : Bool) (read : String → Except String String) (invocation : Invocation)
    (settings : Settings) (path : String) : Response :=
  match read path with
  | .error reason => .failed (.unreadableProgram path reason)
  | .ok source =>
    match settings.prepare source with
    | .ok simulation => execute coloured invocation settings simulation
    | .error errors =>
      { diagnostics := String.join (errors.map fun error => Report.sourceError coloured error ++ "\n")
        failure := some (.rejectedLines errors.length) }

def loadSettings (read : String → Except String String) (config : Option String) :
    Except Failure Settings :=
  match config with
  | none => .ok {}
  | some path =>
    match read path with
    | .error reason => .error (.unreadableConfig path reason)
    | .ok text =>
      match Settings.load text with
      | .ok settings => .ok settings
      | .error error => .error (.badConfig path error)

/-- Answers an invocation. A sample is written whatever else is asked for, and settings are read before
the program. -/
def respond (coloured : Bool) (read : String → Except String String) (invocation : Invocation) :
    Response :=
  match invocation.sample, invocation.program with
  | some path, _ =>
    { output := "Sample configuration saved to: " ++ quotedPath path ++ "\n"
      files := [(path, Settings.sample.save)] }
  | none, none => .failed .noProgram
  | none, some path =>
    match loadSettings read invocation.config with
    | .error failure => .failed failure
    | .ok settings => runProgram coloured read invocation settings path

/-- Reads arguments after the name of the program. Nothing is returned if they make no sense. -/
def parseArguments? : List String → Invocation → Option Invocation
  | [], invocation => some invocation
  | "--trace" :: rest, invocation => parseArguments? rest { invocation with trace := true }
  | "-t" :: rest, invocation => parseArguments? rest { invocation with trace := true }
  | "--config" :: path :: rest, invocation =>
    parseArguments? rest { invocation with config := some path }
  | "-c" :: path :: rest, invocation =>
    parseArguments? rest { invocation with config := some path }
  | "--dump" :: path :: rest, invocation =>
    parseArguments? rest { invocation with dump := some path }
  | "--generate-sample" :: path :: rest, invocation =>
    parseArguments? rest { invocation with sample := some path }
  | argument :: rest, invocation =>
    if "-".isPrefixOf argument || invocation.program.isSome then none
    else parseArguments? rest { invocation with program := some argument }

end AsmLab.CommandLine
