/-!
Pieces of a source line that remember the column at which they start, so that an error can point at
the characters it is about. Cutting a fragment never changes the column of a character.
-/
namespace AsmLab.Source

/-- Columns of a line from `start` up to `stop`, which is not included. -/
structure Span where
  start : Nat
  stop : Nat
  deriving DecidableEq, Repr

structure Fragment where
  start : Nat
  chars : List Char
  deriving DecidableEq, Repr

/-- The blanks that separate the parts of a line. -/
def isBlank (char : Char) : Bool :=
  char = ' ' || char = '\t' || char = '\n' || char = '\x0c' || char = '\r'

def isIdentStart (char : Char) : Bool :=
  char.isAlpha || char = '_' || char = '.'

def isIdent (char : Char) : Bool :=
  char.isAlphanum || char = '_' || char = '.'

namespace Fragment

def ofString (text : String) : Fragment :=
  ⟨0, text.toList⟩

def text (fragment : Fragment) : String :=
  String.ofList fragment.chars

def stop (fragment : Fragment) : Nat :=
  fragment.start + fragment.chars.length

def span (fragment : Fragment) : Span :=
  ⟨fragment.start, fragment.stop⟩

def isEmpty (fragment : Fragment) : Bool :=
  fragment.chars.isEmpty

def head? (fragment : Fragment) : Option Char :=
  fragment.chars.head?

def drop (fragment : Fragment) (count : Nat) : Fragment :=
  ⟨fragment.start + count, fragment.chars.drop count⟩

def takeWhile (fragment : Fragment) (accepts : Char → Bool) : Fragment :=
  ⟨fragment.start, fragment.chars.takeWhile accepts⟩

def dropWhile (fragment : Fragment) (accepts : Char → Bool) : Fragment :=
  ⟨fragment.start + (fragment.chars.takeWhile accepts).length, fragment.chars.dropWhile accepts⟩

def trimEnd (fragment : Fragment) : Fragment :=
  ⟨fragment.start, (fragment.chars.reverse.dropWhile isBlank).reverse⟩

/-- Without the blanks at both ends. Of a fragment of blanks its end is left. -/
def trim (fragment : Fragment) : Fragment :=
  (fragment.dropWhile isBlank).trimEnd

/-- What follows a beginning of the fragment. -/
def stripStart? (beginning : List Char) (fragment : Fragment) : Option Fragment :=
  if beginning <+: fragment.chars then some (fragment.drop beginning.length) else none

/-- The parts before and after the last `char`. -/
def splitLast? (char : Char) (fragment : Fragment) : Option (Fragment × Fragment) :=
  let after := (fragment.chars.reverse.takeWhile (· ≠ char)).reverse
  if after.length < fragment.chars.length then
    let before := fragment.chars.length - after.length - 1
    some (⟨fragment.start, fragment.chars.take before⟩, fragment.drop (before + 1))
  else none

/-- Puts a character in front of the first of some pieces. -/
def extendFirst (start : Nat) (char : Char) : List Fragment → List Fragment
  | [] => [⟨start, [char]⟩]
  | piece :: rest => ⟨start, char :: piece.chars⟩ :: rest

/-- Cuts at the commas outside of all brackets, of which `nesting` tells how they open and close. -/
def cutCommas (nesting : Char → Int) (depth : Int) (start : Nat) : List Char → List Fragment
  | [] => [⟨start, []⟩]
  | char :: rest =>
    if char = ',' ∧ depth = 0 then ⟨start, []⟩ :: cutCommas nesting depth (start + 1) rest
    else extendFirst start char (cutCommas nesting (depth + nesting char) (start + 1) rest)

/-- The pieces between all commas. -/
def splitCommas (fragment : Fragment) : List Fragment :=
  cutCommas (fun _ => 0) 0 fragment.start fragment.chars

def parenthesisNesting (char : Char) : Int :=
  if char = '(' then 1 else if char = ')' then -1 else 0

/-- The pieces between the commas that stand outside of parentheses. -/
def splitOuterCommas (fragment : Fragment) : List Fragment :=
  cutCommas parenthesisNesting 0 fragment.start fragment.chars

end Fragment

end AsmLab.Source
