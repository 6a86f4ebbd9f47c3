import AsmLab.Numeral
/-!
Dates and times of day. A date may have a time, and a time after a date may have an offset. Each function
gives what follows the part that it is named for, or nothing if the text does not start with that part.
-/
namespace AsmLab.Toml.Date

/-- The number that the first `count` characters write, and what follows them. -/
def readNumber (count : Nat) (chars : List Char) : Option (Nat × List Char) :=
  let digits := chars.take count
  if digits.length = count && digits.all (Numeral.isDigit 10) then
    some (Numeral.value 10 digits, chars.drop count)
  else none

def after? (char : Char) : List Char → Option (List Char)
  | other :: rest => if other = char then some rest else none
  | [] => none

def isLeap (year : Nat) : Bool :=
  year % 4 = 0 && (year % 100 ≠ 0 || year % 400 = 0)

def daysIn (year month : Nat) : Nat :=
  if month = 2 then if isLeap year then 29 else 28
  else if month ∈ [4, 6, 9, 11] then 30
  else 31

def afterDay? (chars : List Char) : Option (List Char) := do
  let (year, rest) ← readNumber 4 chars
  let (month, rest) ← readNumber 2 (← after? '-' rest)
  let (day, rest) ← readNumber 2 (← after? '-' rest)
  if 1 ≤ month ∧ month ≤ 12 ∧ 1 ≤ day ∧ day ≤ daysIn year month then return rest else none

/-- Decimals of a second, if there are any. -/
def afterFraction : List Char → List Char
  | '.' :: rest =>
    if rest.head?.any (Numeral.isDigit 10) then rest.dropWhile (Numeral.isDigit 10) else '.' :: rest
  | chars => chars

/-- A minute may have a leap second. -/
def afterTime? (chars : List Char) : Option (List Char) := do
  let (hour, rest) ← readNumber 2 chars
  let (minute, rest) ← readNumber 2 (← after? ':' rest)
  let (second, rest) ← readNumber 2 (← after? ':' rest)
  if hour ≤ 23 ∧ minute ≤ 59 ∧ second ≤ 60 then return afterFraction rest else none

def afterOffset? : List Char → Option (List Char)
  | [] => none
  | sign :: rest => do
    if sign = 'Z' || sign = 'z' then return rest
    if sign ≠ '+' && sign ≠ '-' then none
    let (hour, rest) ← readNumber 2 rest
    let (minute, rest) ← readNumber 2 (← after? ':' rest)
    if hour ≤ 23 ∧ minute ≤ 59 then return rest else none

/-- A time that belongs to the date before it. -/
def afterDayTime? : List Char → Option (List Char)
  | [] => none
  | mark :: rest => do
    if mark ≠ 'T' && mark ≠ 't' && mark ≠ ' ' then none
    let rest ← afterTime? rest
    return (afterOffset? rest).getD rest

/-- A date, a time, or both. -/
def afterDate? (chars : List Char) : Option (List Char) :=
  match afterDay? chars with
  | some rest => some ((afterDayTime? rest).getD rest)
  | none => afterTime? chars

end AsmLab.Toml.Date
