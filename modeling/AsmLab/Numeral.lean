/-!
Numerals in a base up to sixteen. Digits are read from the left, so the first character that is no
digit and the first one that takes the number past its limit are told apart by position.
-/
namespace AsmLab.Numeral

/-- Value of a digit; letters of either case count from ten. -/
def digit? (char : Char) : Option Nat :=
  if '0' ≤ char ∧ char ≤ '9' then some (char.toNat - '0'.toNat)
  else if 'a' ≤ char ∧ char ≤ 'f' then some (char.toNat - 'a'.toNat + 10)
  else if 'A' ≤ char ∧ char ≤ 'F' then some (char.toNat - 'A'.toNat + 10)
  else none

/-- Value of a digit that is below the base. -/
def digitBelow? (base : Nat) (char : Char) : Option Nat :=
  (digit? char).filter (· < base)

def isDigit (base : Nat) (char : Char) : Bool :=
  (digitBelow? base char).isSome

/-- The first number that no 64-bit word holds. -/
def wordLimit : Nat := 0x10000000000000000

/-- The first number that no signed 64-bit word holds. -/
def signedLimit : Nat := 0x8000000000000000

inductive Error where
  | empty
  | invalidDigit
  | tooLarge
  deriving DecidableEq, Repr

def Error.message : Error → String
  | .empty => "cannot parse integer from empty string"
  | .invalidDigit => "invalid digit found in string"
  | .tooLarge => "number too large to fit in target type"

/-- The number that digits continue from `value`, as long as it stays below `limit`. -/
def continueBelow (base limit : Nat) : Nat → List Char → Except Error Nat
  | value, [] => .ok value
  | value, char :: rest =>
    match digitBelow? base char with
    | none => .error .invalidDigit
    | some digit =>
      let next := value * base + digit
      if next < limit then continueBelow base limit next rest else .error .tooLarge

/-- An unsigned number below `limit`, with one optional plus sign before its digits. -/
def readBelow (base limit : Nat) : List Char → Except Error Nat
  | [] => .error .empty
  | ['+'] => .error .invalidDigit
  | '+' :: digits => continueBelow base limit 0 digits
  | digits => continueBelow base limit 0 digits

/-- The number written by digits of the base. Characters that are no digits count as zero. -/
def value (base : Nat) (digits : List Char) : Nat :=
  digits.foldl (fun total char => total * base + (digitBelow? base char).getD 0) 0

/-- A nonempty run of digits of the base. -/
def isNumeral (base : Nat) (digits : List Char) : Bool :=
  !digits.isEmpty && digits.all (isDigit base)

/-- A number with a magnitude, below zero or not. -/
def withSign (negative : Bool) (magnitude : Nat) : Int :=
  if negative then -(magnitude : Int) else magnitude

def padLeft (width : Nat) (fill : Char) (text : String) : String :=
  String.ofList (text.toList.leftpad width fill)

def padRight (width : Nat) (fill : Char) (text : String) : String :=
  String.ofList (text.toList.rightpad width fill)

def decimal (number : Nat) : String :=
  String.ofList (Nat.toDigits 10 number)

def hex (number : Nat) : String :=
  String.ofList (Nat.toDigits 16 number)

/-- Hexadecimal with its marker and no leading zeros. -/
def markedHex (number : Nat) : String :=
  "0x" ++ hex number

/-- All sixteen digits of a 64-bit word. -/
def wordHex (word : BitVec 64) : String :=
  "0x" ++ padLeft 16 '0' (hex word.toNat)

def signed (number : Int) : String :=
  if number < 0 then "-" ++ decimal number.natAbs else decimal number.natAbs

end AsmLab.Numeral
