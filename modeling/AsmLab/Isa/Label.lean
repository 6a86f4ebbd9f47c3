/-!
Label names and the lines that define them. An identifier stays valid while definitions come and go,
so an operand may name a label before its definition is read.
-/
namespace AsmLab

/-- Position of a label in its table. -/
structure LabelId where
  index : Nat
  deriving DecidableEq, Repr

structure LabelEntry where
  name : String
  /-- The line that defines the label, if one does. -/
  line : Option Nat
  deriving DecidableEq, Repr

structure LabelTable where
  entries : List LabelEntry
  deriving DecidableEq, Repr

namespace LabelTable

def empty : LabelTable := ⟨[]⟩

def size (table : LabelTable) : Nat :=
  table.entries.length

def lookup? (table : LabelTable) (name : String) : Option LabelId :=
  (table.entries.findIdx? (fun entry => entry.name == name)).map LabelId.mk

/-- The identifier of a name, which joins the table undefined if it is new. -/
def intern (table : LabelTable) (name : String) : LabelId × LabelTable :=
  match table.lookup? name with
  | some id => (id, table)
  | none => (⟨table.size⟩, ⟨table.entries ++ [⟨name, none⟩]⟩)

def name? (table : LabelTable) (id : LabelId) : Option String :=
  table.entries[id.index]?.map LabelEntry.name

/-- The line that defines a label. -/
def line? (table : LabelTable) (id : LabelId) : Option Nat :=
  table.entries[id.index]?.bind LabelEntry.line

/-- Records the defining line. An identifier that is not in the table changes nothing. -/
def define (table : LabelTable) (id : LabelId) (line : Nat) : LabelTable :=
  ⟨table.entries.modify id.index (fun entry => { entry with line := some line })⟩

/-- Forgets every definition and keeps the names. -/
def undefineAll (table : LabelTable) : LabelTable :=
  ⟨table.entries.map (fun entry => { entry with line := none })⟩

/-- Names and lines of the defined labels, in table order. -/
def defined (table : LabelTable) : List (String × Nat) :=
  table.entries.filterMap fun entry => entry.line.map (entry.name, ·)

end LabelTable

end AsmLab
