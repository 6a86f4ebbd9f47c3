import AsmLab.Numeral
/-!
Statements of a TOML document and their written form. A document is a list of statements: pairs of a
key and a value, and the headings of tables and of elements of arrays of tables.
-/
namespace AsmLab.Toml

/-- A value as it is spelled. Inline tables keep their keys as paths. -/
inductive Value where
  | string (text : String)
  | integer (number : Int)
  | boolean (truth : Bool)
  | float (spelling : String)
  | date (spelling : String)
  | array (items : List Value)
  | table (pairs : List (List String × Value))

inductive Statement where
  /-- The heading of a table. -/
  | table (path : List String)
  /-- The heading of a further element of an array of tables. -/
  | element (path : List String)
  | pair (path : List String) (value : Value)

def isBareKeyChar (char : Char) : Bool :=
  char.isAlphanum || char = '_' || char = '-'

def isControl (char : Char) : Bool :=
  (char.toNat < 0x20 && char ≠ '\t') || char.toNat = 0x7f

def escapeChar (char : Char) : List Char :=
  if char = '"' then ['\\', '"']
  else if char = '\\' then ['\\', '\\']
  else if char = '\n' then ['\\', 'n']
  else if char = '\t' then ['\\', 't']
  else if char = '\r' then ['\\', 'r']
  else if isControl char then
    '\\' :: 'u' :: (Numeral.padLeft 4 '0' (Numeral.hex char.toNat)).toList
  else [char]

/-- A string between double quotes. -/
def quoted (text : String) : String :=
  String.ofList ('"' :: text.toList.flatMap escapeChar ++ ['"'])

def keyText (key : String) : String :=
  if !key.isEmpty && key.toList.all isBareKeyChar then key else quoted key

def pathText (path : List String) : String :=
  String.intercalate "." (path.map keyText)

mutual

/-- An array of more than one element takes a line for each. -/
def Value.text : Value → String
  | .string text => quoted text
  | .integer number => Numeral.signed number
  | .boolean truth => if truth then "true" else "false"
  | .float spelling | .date spelling => spelling
  | .array [] => "[]"
  | .array [item] => "[" ++ item.text ++ "]"
  | .array items => "[\n" ++ itemLines items ++ "]"
  | .table [] => "\x7b\x7d"
  | .table pairs => "\x7b " ++ pairsText pairs ++ " \x7d"

def itemLines : List Value → String
  | [] => ""
  | item :: rest => "    " ++ item.text ++ ",\n" ++ itemLines rest

def pairsText : List (List String × Value) → String
  | [] => ""
  | [(path, value)] => pathText path ++ " = " ++ value.text
  | (path, value) :: rest => pathText path ++ " = " ++ value.text ++ ", " ++ pairsText rest

end

/-- A blank line comes before each heading. -/
def Statement.text : Statement → String
  | .table path => "\n[" ++ pathText path ++ "]\n"
  | .element path => "\n[[" ++ pathText path ++ "]]\n"
  | .pair path value => pathText path ++ " = " ++ value.text ++ "\n"

def render (statements : List Statement) : String :=
  String.join (statements.map Statement.text)

end AsmLab.Toml
