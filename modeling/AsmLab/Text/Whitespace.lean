/-!
The characters that Unicode gives the property White_Space.
-/
namespace AsmLab.Text

/-- First and last code points of the ranges with the property, in ascending order. -/
def whitespaceRanges : List (Nat × Nat) :=
  [(0x9, 0xd), (0x20, 0x20), (0x85, 0x85), (0xa0, 0xa0), (0x1680, 0x1680), (0x2000, 0x200a),
    (0x2028, 0x2029), (0x202f, 0x202f), (0x205f, 0x205f), (0x3000, 0x3000)]

def isWhitespace (char : Char) : Bool :=
  whitespaceRanges.any fun (first, last) => first ≤ char.toNat && char.toNat ≤ last

/-- Without the whitespace at both ends. -/
def trim (chars : List Char) : List Char :=
  ((chars.dropWhile isWhitespace).reverse.dropWhile isWhitespace).reverse

end AsmLab.Text
