import AsmLab.Numeral
/-!
Integers and floats. Underscores may stand between two digits, an integer is a signed 64-bit number, and
a float is checked and not evaluated.
-/
namespace AsmLab.Toml

/-- Digits without the underscores that stand between two of them. -/
def plainDigits? (base : Nat) (afterDigit : Bool) : List Char → Option (List Char)
  | [] => if afterDigit then some [] else none
  | char :: rest =>
    if char = '_' then if afterDigit then plainDigits? base false rest else none
    else if Numeral.isDigit base char then (plainDigits? base true rest).map (char :: ·)
    else none

def dropSign : List Char → Bool × List Char
  | '-' :: rest => (true, rest)
  | '+' :: rest => (false, rest)
  | chars => (false, chars)

/-- Decimal digits of which the first is no zero, unless it is the only one. -/
def wholeDigits? (chars : List Char) : Option (List Char) := do
  let digits ← plainDigits? 10 false chars
  if digits.head? = some '0' && 1 < digits.length then none
  return digits

def readBased? (base : Nat) (chars : List Char) : Option Nat := do
  return Numeral.value base (← plainDigits? base false chars)

/-- A signed 64-bit number. -/
def readInteger? (chars : List Char) : Option Int := do
  let number : Int ← match chars with
    | '0' :: 'x' :: digits => (readBased? 16 digits).map Int.ofNat
    | '0' :: 'o' :: digits => (readBased? 8 digits).map Int.ofNat
    | '0' :: 'b' :: digits => (readBased? 2 digits).map Int.ofNat
    | chars =>
      let (negative, digits) := dropSign chars
      (wholeDigits? digits).map fun digits => Numeral.withSign negative (Numeral.value 10 digits)
  if -(Numeral.signedLimit : Int) ≤ number ∧ number < Numeral.signedLimit then return number else none

/-- A decimal float: `digits` times a power of ten. -/
structure Scaled where
  negative : Bool
  digits : Nat
  exponent : Int
  deriving DecidableEq, Repr

/-- The least number that rounds to infinity in double precision. -/
def infiniteFrom : Nat := 0x3fffffffffffff <<< 970

/-- Whether the magnitude is too large for double precision. -/
def Scaled.isInfinite (scaled : Scaled) : Bool :=
  let order := (Numeral.decimal scaled.digits).length + scaled.exponent
  if scaled.digits = 0 || order < 309 then false
  else if 309 < order then true
  else
    match scaled.exponent with
    | .ofNat zeros => infiniteFrom ≤ scaled.digits * Nat.pow 10 zeros
    | .negSucc places => infiniteFrom * Nat.pow 10 (places + 1) ≤ scaled.digits

/-- An exponent with its letter. Without one the exponent is zero. -/
def readExponent? : List Char → Option Int
  | [] => some 0
  | char :: rest =>
    let (negative, digits) := dropSign rest
    if char = 'e' || char = 'E' then
      (plainDigits? 10 false digits).map fun digits => Numeral.withSign negative (Numeral.value 10 digits)
    else none

/-- A number with a fraction or an exponent. -/
def readScaled? (chars : List Char) : Option Scaled := do
  let (negative, body) := dropSign chars
  let isPlain (char : Char) : Bool := char.isDigit || char = '_'
  let digits ← wholeDigits? (body.takeWhile isPlain)
  match body.dropWhile isPlain with
  | [] => none
  | '.' :: fraction =>
    let places ← plainDigits? 10 false (fraction.takeWhile isPlain)
    let exponent ← readExponent? (fraction.dropWhile isPlain)
    return ⟨negative, Numeral.value 10 (digits ++ places), exponent - places.length⟩
  | rest => return ⟨negative, Numeral.value 10 digits, ← readExponent? rest⟩

/-- A float. A positive one has to be finite, unless it is spelled as infinity. -/
def isFloat (chars : List Char) : Bool :=
  let word := (dropSign chars).2
  word = ['i', 'n', 'f'] || word = ['n', 'a', 'n'] ||
    (readScaled? chars).any fun scaled => scaled.negative || !scaled.isInfinite

end AsmLab.Toml
