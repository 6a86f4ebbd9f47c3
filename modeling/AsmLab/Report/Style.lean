import AsmLab.Numeral
/-!
Terminal styles. A style is a list of graphic rendition codes around a text, and colours can be turned
off as a whole.
-/
namespace AsmLab

structure Style where
  codes : List Nat
  deriving DecidableEq, Repr

namespace Style

def plain : Style := ⟨[]⟩
def bold : Style := ⟨[1]⟩
def redBold : Style := ⟨[1, 31]⟩
def brightGreenBold : Style := ⟨[1, 92]⟩
def greenBold : Style := ⟨[1, 32]⟩
def yellowBold : Style := ⟨[1, 33]⟩
def green : Style := ⟨[32]⟩
def yellow : Style := ⟨[33]⟩
def brightBlack : Style := ⟨[90]⟩
def brightBlue : Style := ⟨[94]⟩
def brightCyan : Style := ⟨[96]⟩

def escape : Char := '\x1b'

/-- Ends every style. -/
def reset : List Char := [escape, '[', '0', 'm']

/-- Starts the style. -/
def opening (style : Style) : List Char :=
  escape :: '[' :: (String.intercalate ";" (style.codes.map Numeral.decimal)).toList ++ ['m']

/-- Starts a style again after each place where a text ends all styles. -/
def reopen (opening : List Char) : List Char → List Char
  | [] => []
  | '\x1b' :: '[' :: '0' :: 'm' :: rest => reset ++ opening ++ reopen opening rest
  | char :: rest => char :: reopen opening rest

/-- A text in the style, or as it is without colours. What stands between the codes is laid out last, so
that padding counts the characters of codes inside the text. -/
def paintLaidOut (style : Style) (coloured : Bool) (layout : String → String) (text : String) :
    String :=
  if coloured && style ≠ plain then
    String.ofList style.opening ++ layout (String.ofList (reopen style.opening text.toList)) ++
      String.ofList reset
  else layout text

def paint (style : Style) (coloured : Bool) (text : String) : String :=
  style.paintLaidOut coloured id text

end Style

end AsmLab
