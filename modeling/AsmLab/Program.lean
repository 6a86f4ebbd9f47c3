import AsmLab.Source.Session
/-!
Programs that can be edited line by line. After every edit the number of a line is its position, each
label is defined where its line now stands, and the session goes on after the last line.
-/
namespace AsmLab

open Source (ParseError Session)

structure Program where
  lines : List Line
  session : Session
  deriving DecidableEq, Repr

namespace Program

def empty : Program := ⟨[], .empty⟩

def length (program : Program) : Nat :=
  program.lines.length

def labels (program : Program) : LabelTable :=
  program.session.labels

def line? (program : Program) (index : Nat) : Option Line :=
  program.lines[index]?

/-- Numbers lines from `start` on. -/
def number (start : Nat) : List Line → List Line
  | [] => []
  | line :: rest => { line with number := start } :: number (start + 1) rest

/-- Defines every label at the number of the line that holds its definition. -/
def defineLabels (labels : LabelTable) (lines : List Line) : LabelTable :=
  lines.foldl
    (fun labels line => line.definedLabel?.elim labels (labels.define · line.number)) labels

/-- Restores numbers, label definitions and the number of the next line. -/
def renumber (program : Program) : Program :=
  let lines := number 0 program.lines
  ⟨lines, ⟨lines.length, defineLabels program.labels.undefineAll lines⟩⟩

/-- Reads a line at the end and returns its position. -/
def push (program : Program) (text : String) : Except ParseError Nat × Program :=
  match (program.session.setLine program.length).parseLine text with
  | (.error error, session) => (.error error, { program with session })
  | (.ok line, session) => (.ok program.length, ⟨program.lines ++ [line], session⟩)

/-- Reads a line in front of the line at `index`, or at the end if there is none. -/
def insert (program : Program) (index : Nat) (text : String) : Except ParseError Unit × Program :=
  let place := min index program.length
  match (program.session.setLine place).parseLine text with
  | (.error error, session) => (.error error, renumber { program with session })
  | (.ok line, session) => (.ok (), renumber ⟨program.lines.insertIdx place line, session⟩)

def remove (program : Program) (index : Nat) : Option Line × Program :=
  match program.line? index with
  | none => (none, program)
  | some line => (some line, renumber { program with lines := program.lines.eraseIdx index })

def modifyLine (program : Program) (index : Nat) (change : Line → Line) : Program :=
  { program with lines := program.lines.modify index change }

/-- Reads a line in the place of another one and keeps its breakpoint. A rejected line leaves the old
one in its place. -/
def replace (program : Program) (index : Nat) (text : String) : Except ParseError Unit × Program :=
  match program.remove index with
  | (none, program) => program.insert index text
  | (some old, shorter) =>
    match shorter.insert index text with
    | (.ok (), longer) =>
      (.ok (), longer.modifyLine index fun line => { line with breakpoint := old.breakpoint })
    | (.error error, shorter) =>
      (.error error, renumber { shorter with lines := shorter.lines.insertIdx index old })

def isBreakpoint (program : Program) (index : Nat) : Bool :=
  (program.line? index).any Line.breakpoint

def toggleBreakpoint (program : Program) (index : Nat) : Program :=
  program.modifyLine index fun line => { line with breakpoint := !line.breakpoint }

/-- The canonical text of every line, each with its line end. -/
def toSource (program : Program) : String :=
  String.join (program.lines.map fun line => line.text ++ "\n")

end Program

/-- A source line that was rejected. -/
structure SourceError where
  line : Nat
  text : String
  error : ParseError
  deriving DecidableEq, Repr

def SourceError.message (error : SourceError) : String :=
  "line " ++ Numeral.decimal error.line ++ ": " ++ error.error.message

namespace Program

/-- Puts a character in front of the first of some lines. -/
def extendFirst (char : Char) : List (List Char) → List (List Char)
  | [] => [[char]]
  | line :: rest => (char :: line) :: rest

/-- The lines of a text, without the line feed that ends each and a carriage return just before it. A
line end at the very end of the text starts no further line. -/
def splitLines : List Char → List (List Char)
  | [] => []
  | '\n' :: rest => [] :: splitLines rest
  | '\r' :: '\n' :: rest => [] :: splitLines rest
  | char :: rest => extendFirst char (splitLines rest)

/-- A rejected line, kept as a blank one so that later lines have the numbers of the source. -/
def placeholder (number : Nat) : Line :=
  ⟨number, .blank, none, false⟩

/-- Reads the next source line, or reports it and puts a blank line in its place. -/
def pushOrReport (state : Program × List SourceError) (text : String) :
    Program × List SourceError :=
  let (program, errors) := state
  match program.push text with
  | (.ok _, program) => (program, errors)
  | (.error error, program) =>
    let lines := program.lines ++ [placeholder program.length]
    (⟨lines, program.session.setLine lines.length⟩, errors ++ [⟨program.length, text, error⟩])

/-- Reads all lines of a text and reports each one that is rejected. -/
def readLines (texts : List String) : Program × List SourceError :=
  texts.foldl pushOrReport (empty, [])

def ofSource (source : String) : Except (List SourceError) Program :=
  match readLines ((splitLines source.toList).map String.ofList) with
  | (program, []) => .ok program
  | (_, errors) => .error errors

end Program

end AsmLab
