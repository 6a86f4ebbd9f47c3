import AsmLab.Toml.Date
import AsmLab.Toml.Number
import AsmLab.Toml.Quoted
/-!
Reading the statements of a TOML document. Nesting is bounded, so values are read by recursion on the
nesting that is still allowed.
-/
namespace AsmLab.Toml

/-- Arrays and inline tables are nested up to this depth, and a path has up to this many keys. -/
def nestingLimit : Nat := 79

def readKey (chars : List Char) : Option (String × List Char) :=
  match chars with
  | '"' :: _ | '\'' :: _ => readLineString chars
  | _ =>
    let key := chars.takeWhile isBareKeyChar
    if key.isEmpty then none else some (String.ofList key, chars.dropWhile isBareKeyChar)

/-- At most so many keys with dots between them. -/
def readPath : Nat → Reader (List String)
  | 0, _ => none
  | limit + 1, chars => do
    let (key, rest) ← readKey (skipBlanks chars)
    match skipBlanks rest with
    | '.' :: rest =>
      let (path, rest) ← readPath limit rest
      return (key :: path, rest)
    | rest => return ([key], rest)

def isWordChar (char : Char) : Bool :=
  char.isAlphanum || char = '_' || char = '+' || char = '-' || char = '.'

/-- A number or a truth value. -/
def word? (word : List Char) : Option Value :=
  if word = ['t', 'r', 'u', 'e'] then some (.boolean true)
  else if word = ['f', 'a', 'l', 's', 'e'] then some (.boolean false)
  else if let some number := readInteger? word then some (.integer number)
  else if isFloat word then some (.float (String.ofList word))
  else none

/-- A value that holds no other values. -/
def readSimple (chars : List Char) : Option (Value × List Char) :=
  match chars with
  | '"' :: _ | '\'' :: _ => (readString chars).map fun (text, rest) => (.string text, rest)
  | _ =>
    match Date.afterDate? chars with
    | some rest =>
      some (.date (String.ofList (chars.take (chars.length - rest.length))), rest)
    | none => (word? (chars.takeWhile isWordChar)).map fun value => (value, chars.dropWhile isWordChar)

/-- The rest of an array. A comma may follow its last element. The fuel bounds the elements. -/
def readItems (readItem : Reader Value) : Nat → Reader (List Value)
  | 0, _ => none
  | fuel + 1, chars =>
    match chars with
    | ']' :: rest => some ([], rest)
    | chars => do
      let (item, rest) ← readItem chars
      match skipGap false rest with
      | ',' :: rest =>
        let (items, rest) ← readItems readItem fuel (skipGap false rest)
        return (item :: items, rest)
      | ']' :: rest => return ([item], rest)
      | _ => none

/-- The rest of an inline table that is not empty. The fuel bounds the pairs. -/
def readPairs (readItem : Reader Value) : Nat → Reader (List (List String × Value))
  | 0, _ => none
  | fuel + 1, chars => do
    let (path, rest) ← readPath nestingLimit chars
    match rest with
    | '=' :: rest =>
      let (value, rest) ← readItem (skipBlanks rest)
      match skipBlanks rest with
      | ',' :: rest =>
        let (pairs, rest) ← readPairs readItem fuel rest
        return ((path, value) :: pairs, rest)
      | '\x7d' :: rest => return ([(path, value)], rest)
      | _ => none
    | _ => none

/-- A value at the very front of the text, in which arrays and inline tables are nested at most so
deep. -/
def readValue : Nat → Reader Value
  | limit + 1, '[' :: rest =>
    (readItems (readValue limit) rest.length (skipGap false rest)).map fun (items, rest) =>
      (.array items, rest)
  | limit + 1, '\x7b' :: rest =>
    match skipBlanks rest with
    | '\x7d' :: rest => some (.table [], rest)
    | rest =>
      (readPairs (readValue limit) rest.length rest).map fun (pairs, rest) => (.table pairs, rest)
  | _, chars => readSimple chars

def readStatement : Reader Statement
  | '[' :: '[' :: rest => do
    let (path, rest) ← readPath nestingLimit rest
    match rest with
    | ']' :: ']' :: rest => return (.element path, rest)
    | _ => none
  | '[' :: rest => do
    let (path, rest) ← readPath nestingLimit rest
    match rest with
    | ']' :: rest => return (.table path, rest)
    | _ => none
  | chars => do
    let (path, rest) ← readPath nestingLimit chars
    match rest with
    | '=' :: rest =>
      let (value, rest) ← readValue nestingLimit (skipBlanks rest)
      return (.pair path value, rest)
    | _ => none

/-- The statements of a text, each on lines of its own. The fuel bounds their number. -/
def readStatements : Nat → List Char → Option (List Statement)
  | 0, _ => none
  | fuel + 1, chars =>
    match skipGap false chars with
    | [] => some []
    | chars => do
      let (statement, rest) ← readStatement chars
      return statement :: (← readStatements fuel (← finishLine? rest))

/-- Without the mark that tells the byte order of an encoded text. -/
def dropByteOrderMark : List Char → List Char
  | '\ufeff' :: rest => rest
  | chars => chars

/-- The statements of a document. -/
def read? (text : String) : Option (List Statement) :=
  readStatements (text.length + 1) (dropByteOrderMark text.toList)

end AsmLab.Toml
