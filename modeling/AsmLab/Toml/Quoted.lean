import AsmLab.Toml.Layout
/-!
Reading strings. Text between double quotes may be escaped, text between single quotes stands for
itself. Three quotes instead of one let a string go over several lines.
-/
namespace AsmLab.Toml

/-- The character with a code point given in hexadecimal. -/
def scalar? (digits : List Char) : Option Char :=
  let code := Numeral.value 16 digits
  if h : Numeral.isNumeral 16 digits ∧ code.isValidChar then some (Char.ofNatAux code h.2) else none

def escaped? : Char → Option Char
  | 'b' => some '\x08'
  | 't' => some '\t'
  | 'n' => some '\n'
  | 'f' => some '\x0c'
  | 'r' => some '\r'
  | '"' => some '"'
  | '\\' => some '\\'
  | _ => none

/-- The rest of an escape after its backslash. -/
def readEscape : Reader Char
  | 'u' :: a :: b :: c :: d :: rest => (scalar? [a, b, c, d]).map (·, rest)
  | 'U' :: a :: b :: c :: d :: e :: f :: g :: h :: rest =>
    (scalar? [a, b, c, d, e, f, g, h]).map (·, rest)
  | letter :: rest => (escaped? letter).map (·, rest)
  | [] => none

/-- The rest of a string after its opening double quote. The fuel bounds the characters of the string,
its closing quote included. -/
def readQuoted : Nat → Reader (List Char)
  | 0, _ => none
  | fuel + 1, chars =>
    match chars with
    | [] => none
    | '"' :: rest => some ([], rest)
    | '\\' :: rest => do
      let (char, rest) ← readEscape rest
      let (chars, rest) ← readQuoted fuel rest
      return (char :: chars, rest)
    | char :: rest => do
      if isControl char then none
      let (chars, rest) ← readQuoted fuel rest
      return (char :: chars, rest)

/-- The rest of a string after its opening single quote. -/
def readLiteral : Reader (List Char)
  | [] => none
  | char :: rest => do
    if char = '\'' then return ([], rest)
    if isControl char then none
    let (chars, rest) ← readLiteral rest
    return (char :: chars, rest)

/-- Up to two quotes that belong to a string before the three that close it, and the rest after these. -/
def afterTripled? (quote : Char) (chars : List Char) : Option (List Char × List Char) :=
  match (chars.takeWhile (· = quote)).length with
  | 0 | 1 | 2 => none
  | count =>
    let kept := min (count - 3) 2
    some (List.replicate kept quote, chars.drop (kept + 3))

/-- The rest of a string after three double quotes. A backslash at the end of a line joins the line to
the next text. -/
def readQuotedLines : Nat → Reader (List Char)
  | 0, _ => none
  | fuel + 1, chars =>
    match afterTripled? '"' chars with
    | some ended => some ended
    | none =>
      match chars with
      | [] => none
      | '\\' :: rest =>
        match afterNewline? (skipBlanks rest) with
        | some next => readQuotedLines fuel (skipSpace next)
        | none => do
          let (char, rest) ← readEscape rest
          let (chars, rest) ← readQuotedLines fuel rest
          return (char :: chars, rest)
      | char :: rest => do
        let (char, rest) ←
          match afterNewline? chars with
          | some next => some ('\n', next)
          | none => if isControl char then none else some (char, rest)
        let (chars, rest) ← readQuotedLines fuel rest
        return (char :: chars, rest)

/-- The rest of a string after three single quotes. -/
def readLiteralLines : Nat → Reader (List Char)
  | 0, _ => none
  | fuel + 1, chars =>
    match afterTripled? '\'' chars with
    | some ended => some ended
    | none =>
      match chars with
      | [] => none
      | char :: rest => do
        let (char, rest) ←
          match afterNewline? chars with
          | some next => some ('\n', next)
          | none => if isControl char then none else some (char, rest)
        let (chars, rest) ← readLiteralLines fuel rest
        return (char :: chars, rest)

/-- A line end right after three opening quotes does not count. -/
def dropFirstNewline (chars : List Char) : List Char :=
  (afterNewline? chars).getD chars

/-- A string of one line. -/
def readLineString : Reader String
  | '"' :: rest => (readQuoted rest.length rest).map fun (chars, rest) => (String.ofList chars, rest)
  | '\'' :: rest => (readLiteral rest).map fun (chars, rest) => (String.ofList chars, rest)
  | _ => none

def readString : Reader String
  | '"' :: '"' :: '"' :: rest =>
    (readQuotedLines rest.length (dropFirstNewline rest)).map fun (chars, rest) =>
      (String.ofList chars, rest)
  | '\'' :: '\'' :: '\'' :: rest =>
    (readLiteralLines rest.length (dropFirstNewline rest)).map fun (chars, rest) =>
      (String.ofList chars, rest)
  | chars => readLineString chars

end AsmLab.Toml
