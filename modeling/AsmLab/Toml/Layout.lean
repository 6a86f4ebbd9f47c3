import AsmLab.Toml.Syntax
/-!
The parts of a TOML document that carry no data: blanks, line ends and comments. A comment holds no
control characters, and where one stands anyway the comment ends in front of it.
-/
namespace AsmLab.Toml

/-- A reader takes what it can from the front of a text and gives back the rest, or nothing if the text is
malformed. -/
abbrev Reader (Result : Type) := List Char → Option (Result × List Char)

def isBlank (char : Char) : Bool :=
  char = ' ' || char = '\t'

def skipBlanks (chars : List Char) : List Char :=
  chars.dropWhile isBlank

/-- What follows a line feed or a carriage return with a line feed. -/
def afterNewline? : List Char → Option (List Char)
  | '\n' :: rest => some rest
  | '\r' :: '\n' :: rest => some rest
  | _ => none

/-- What follows the end of a line, or nothing if the line goes on. -/
def afterLineEnd? : List Char → Option (List Char)
  | [] => some []
  | chars => afterNewline? chars

/-- The rest of a line after its statement: blanks and perhaps a comment. -/
def finishLine? (chars : List Char) : Option (List Char) :=
  match skipBlanks chars with
  | '#' :: comment => afterLineEnd? (comment.dropWhile (!isControl ·))
  | rest => afterLineEnd? rest

/-- Skips blanks and line ends. -/
def skipSpace : List Char → List Char
  | [] => []
  | '\r' :: '\n' :: rest => skipSpace rest
  | char :: rest => if isBlank char || char = '\n' then skipSpace rest else char :: rest

/-- Skips blanks, line ends and comments, from inside a comment or from outside of one. -/
def skipGap : Bool → List Char → List Char
  | _, [] => []
  | _, '\n' :: rest => skipGap false rest
  | _, '\r' :: '\n' :: rest => skipGap false rest
  | true, char :: rest => if isControl char then char :: rest else skipGap true rest
  | false, char :: rest =>
    if isBlank char then skipGap false rest
    else if char = '#' then skipGap true rest
    else char :: rest

end AsmLab.Toml
