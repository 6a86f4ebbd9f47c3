import AsmLab.Toml.Reader
/-!
The tables that the statements of a document define. No key is defined twice, only a table that a longer
heading implied may still get a heading of its own, and only one that keys with dots made may still get
further pairs from such keys.
-/
namespace AsmLab.Toml

/-- How a table came into being, which decides what may still be added to it. -/
inductive Origin where
  | heading
  /-- By the heading of a table inside it. -/
  | implied
  /-- By a key with dots. -/
  | dotted
  /-- Between braces. -/
  | inline
  deriving DecidableEq, Repr

inductive Node where
  | string (text : String)
  | integer (number : Int)
  | boolean (truth : Bool)
  | float (spelling : String)
  | array (items : List Node)
  | table (origin : Origin) (entries : List (String × Node))
  /-- An array of tables, one for each heading. -/
  | elements (tables : List (List (String × Node)))

/-- The entries of a table in the order of their definition. -/
abbrev Entries := List (String × Node)

namespace Entries

def replace (entries : Entries) (key : String) (node : Node) : Entries :=
  entries.map fun entry => if entry.1 = key then (key, node) else entry

def remove (entries : Entries) (key : String) : Entries :=
  entries.filter fun entry => entry.1 ≠ key

/-- Changes the entries of a table, or of the last table of an array of tables. -/
def changeInside (change : Entries → Option Entries) : Node → Option Node
  | .table origin entries => (change entries).map (Node.table origin)
  | .elements tables => do
    let last ← change (← tables.getLast?)
    return .elements (tables.dropLast ++ [last])
  | _ => none

/-- Whether a key with dots may go through a node, of which it is the last but one key if `ends`. -/
def admitsDots (ends : Bool) : Node → Bool
  | .table .dotted _ => true
  | .table .implied _ | .elements _ => !ends
  | _ => false

/-- Adds a pair. The dots of a key lead through tables that no heading opened and through the last
tables of arrays, to a table that other keys with dots made. -/
def insertPair (node : Node) : List String → Entries → Option Entries
  | [], _ => none
  | [key], entries => if (entries.lookup key).isSome then none else some (entries ++ [(key, node)])
  | key :: path, entries =>
    match entries.lookup key with
    | none => do
      let inner ← insertPair node path []
      return entries ++ [(key, .table .dotted inner)]
    | some found => do
      if !admitsDots (path.length = 1) found then none
      return replace entries key (← changeInside (insertPair node path) found)

/-- Changes the table to which a path leads. Missing tables on the way are implied, and of an array of
tables the last one is meant. -/
def changeAt (change : Entries → Option Entries) : List String → Entries → Option Entries
  | [], entries => change entries
  | key :: path, entries =>
    match entries.lookup key with
    | none => do
      let inner ← changeAt change path []
      return entries ++ [(key, .table .implied inner)]
    | some (.table .inline _) => none
    | some found => do return replace entries key (← changeInside (changeAt change path) found)

/-- Gives a table its heading. -/
def openTable (key : String) (entries : Entries) : Option Entries :=
  match entries.lookup key with
  | none => some (entries ++ [(key, .table .heading [])])
  | some (.table .implied inner) => some (remove entries key ++ [(key, .table .heading inner)])
  | some _ => none

/-- Adds an empty table to an array of tables. -/
def openElement (key : String) (entries : Entries) : Option Entries :=
  match entries.lookup key with
  | none => some (entries ++ [(key, .elements [[]])])
  | some (.elements tables) => some (replace entries key (.elements (tables ++ [[]])))
  | some _ => none

end Entries

/-- The reserved key under which a date is read. -/
def dateKey : String := "$__toml_private_datetime"

mutual

/-- A date counts as a table with one entry. -/
def Value.node? : Value → Option Node
  | .string text => some (.string text)
  | .integer number => some (.integer number)
  | .boolean truth => some (.boolean truth)
  | .float spelling => some (.float spelling)
  | .date spelling => some (.table .inline [(dateKey, .string spelling)])
  | .array items => (itemNodes? items).map .array
  | .table pairs => (pairEntries? pairs []).map (.table .inline)

def itemNodes? : List Value → Option (List Node)
  | [] => some []
  | item :: rest => do return (← item.node?) :: (← itemNodes? rest)

/-- The entries of an inline table, added to those of the pairs before. -/
def pairEntries? : List (List String × Value) → Entries → Option Entries
  | [], entries => some entries
  | (path, value) :: rest, entries => do
    pairEntries? rest (← entries.insertPair (← value.node?) path)

end

/-- Applies a statement to a document, of which the table at `place` is open. -/
def applyStatement (root : Entries) (place : List String) (statement : Statement) :
    Option (Entries × List String) := do
  match statement with
  | .pair path value =>
    let node ← value.node?
    return (← root.changeAt (Entries.insertPair node path) place, place)
  | .table path =>
    let key ← path.getLast?
    return (← root.changeAt (Entries.openTable key) path.dropLast, path)
  | .element path =>
    let key ← path.getLast?
    return (← root.changeAt (Entries.openElement key) path.dropLast, path)

def applyStatements : List Statement → Entries × List String → Option (Entries × List String)
  | [], state => some state
  | statement :: rest, (root, place) => do
    applyStatements rest (← applyStatement root place statement)

/-- The entries at the top of a document. -/
def Entries.ofStatements? (statements : List Statement) : Option Entries :=
  (applyStatements statements ([], [])).map Prod.fst

/-- The entries at the top of a written document. -/
def Entries.read? (text : String) : Option Entries := do
  Entries.ofStatements? (← Toml.read? text)

end AsmLab.Toml
