import AsmLab.Isa.Operand
import AsmLab.Source.Error
/-!
Spellings of numbers in operands: immediates, which have to fit the width of their operand, and
displacements, which are signed 64-bit numbers.
-/
namespace AsmLab.Source

/-- Whether a minus sign comes first, and what follows it. -/
def splitMinus : List Char → Bool × List Char
  | '-' :: rest => (true, rest)
  | chars => (false, chars)

/-- What follows the marker of a hexadecimal number. -/
def afterHexMarker? : List Char → Option (List Char)
  | '0' :: 'x' :: digits => some digits
  | '0' :: 'X' :: digits => some digits
  | _ => none

/-- Decimal immediates beyond this are not measured in bits. -/
def largestMeasured : Nat := 0x7fffffffffffffffffffffffffffffff

/-- A hexadecimal immediate is as wide as its digits, leading zeros included. A decimal one needs room
for its sign bit. `text` starts with the dollar sign. -/
def readImmediate (bits : Nat) (text : List Char) : Except ErrorCause Immediate :=
  let quoted := String.ofList text
  let (negative, magnitude) := splitMinus text.tail
  match afterHexMarker? magnitude with
  | some digits =>
    if !Numeral.isNumeral 16 digits then .error (.malformedConstant quoted)
    else if bits < 4 * digits.length then
      .error (.constantTooWide quoted (4 * digits.length) bits)
    else .ok ⟨Numeral.withSign negative (Numeral.value 16 digits), .hex digits.length⟩
  | none =>
    if !Numeral.isNumeral 10 magnitude then .error (.malformedConstant quoted)
    else
      let value := Numeral.value 10 magnitude
      let needed := bitLength (Numeral.withSign negative value) + 1
      if largestMeasured < value then .error (.constantOutOfRange quoted bits)
      else if bits < needed then .error (.constantTooWide quoted needed bits)
      else .ok ⟨Numeral.withSign negative value, .decimal⟩

/-- Hexadecimal digits of a signed 64-bit number, which may have a sign of their own. -/
def readSignedHex? (chars : List Char) : Option Int :=
  let (negative, digits) :=
    match chars with
    | '+' :: digits => (false, digits)
    | chars => splitMinus chars
  let magnitude := Numeral.value 16 digits
  let inRange := magnitude < Numeral.signedLimit || (negative && magnitude = Numeral.signedLimit)
  if Numeral.isNumeral 16 digits && inRange then some (Numeral.withSign negative magnitude) else none

def readDecimal? (digits : List Char) : Option Int :=
  if Numeral.isNumeral 10 digits && Numeral.value 10 digits < Numeral.signedLimit then
    some (Numeral.value 10 digits)
  else none

/-- A displacement. A minus sign comes before the marker of a hexadecimal one. The negative of the
lowest value wraps around to that value. -/
def readDisplacement? (text : List Char) : Option (BitVec 64) :=
  let (negative, magnitude) := splitMinus text
  let value? :=
    match afterHexMarker? magnitude with
    | some digits => readSignedHex? digits
    | none => readDecimal? magnitude
  value?.map fun value => BitVec.ofInt 64 (if negative then -value else value)

end AsmLab.Source
