import AsmLab.Machine.Flags
/-!
Condition codes and the flag combinations under which each one holds.
-/
namespace AsmLab

inductive Condition where
  | e | ne | s | ns | g | ge | l | le | a | ae | b | be
  deriving DecidableEq, Repr

namespace Condition

def all : List Condition := [e, ne, s, ns, g, ge, l, le, a, ae, b, be]

def name : Condition → String
  | e => "e"
  | ne => "ne"
  | s => "s"
  | ns => "ns"
  | g => "g"
  | ge => "ge"
  | l => "l"
  | le => "le"
  | a => "a"
  | ae => "ae"
  | b => "b"
  | be => "be"

def ofName? (name : String) : Option Condition :=
  all.find? (fun condition => condition.name == name)

/-- Less and greater compare signed numbers, above and below unsigned ones. -/
def holds (condition : Condition) (flags : Flags) : Bool :=
  match condition with
  | e => flags.zero
  | ne => !flags.zero
  | s => flags.sign
  | ns => !flags.sign
  | g => !flags.zero && flags.sign == flags.overflow
  | ge => flags.sign == flags.overflow
  | l => flags.sign != flags.overflow
  | le => flags.zero || flags.sign != flags.overflow
  | a => !flags.carry && !flags.zero
  | ae => !flags.carry
  | b => flags.carry
  | be => flags.carry || flags.zero

end Condition

end AsmLab
