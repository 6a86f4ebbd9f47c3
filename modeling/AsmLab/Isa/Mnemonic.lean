import AsmLab.Isa.Opcode
/-!
Mnemonics: an instruction together with the widths that its suffixes denote. The catalog lists every
mnemonic; decoding reads one from its letters and says what is wrong with a word that is none.
-/
namespace AsmLab

structure Mnemonic where
  opcode : Opcode
  /-- Width of the destination, or of the only operand. -/
  size : Size
  /-- Width of the source; it differs from `size` in widening moves only. -/
  sourceSize : Size
  deriving DecidableEq, Repr

namespace Mnemonic

def uniform (opcode : Opcode) (size : Size) : Mnemonic :=
  ⟨opcode, size, size⟩

/-- The mnemonic as source text writes it. -/
def text (mnemonic : Mnemonic) : String :=
  if mnemonic.opcode.isUnsized then mnemonic.opcode.name
  else if mnemonic.opcode ∈ Opcode.widening then
    mnemonic.opcode.name ++ String.ofList [mnemonic.sourceSize.suffix, mnemonic.size.suffix]
  else mnemonic.opcode.name ++ String.ofList [mnemonic.size.suffix]

def slots (mnemonic : Mnemonic) : List Slot :=
  mnemonic.opcode.slots mnemonic.size mnemonic.sourceSize

/-- Width that the suffix denotes. Mnemonics without a suffix have none. -/
def suffixSize? (mnemonic : Mnemonic) : Option Size :=
  if mnemonic.opcode.isUnsized then none else some mnemonic.size

/-- Every mnemonic. -/
def catalog : List Mnemonic :=
  Opcode.sized.flatMap (fun opcode => Size.all.map (uniform opcode)) ++
    Opcode.quadOnly.map (uniform · .quad) ++
    Opcode.widening.flatMap (fun opcode =>
      Size.all.flatMap fun source =>
        (Size.all.filter (source < ·)).map fun size => ⟨opcode, size, source⟩) ++
    Condition.all.flatMap (fun condition =>
      [uniform (.set condition) .byte, uniform (.jumpIf condition) .byte]) ++
    [uniform .jmp .byte]

/-- Why a word is no mnemonic. -/
inductive Error where
  | unknown (word : String)
  | badCondition (condition stem : String)
  | needsTwoSuffixes
  | suffixOrder
  | needsQuadSuffix (stem : String)
  | needsOneSuffix
  deriving DecidableEq, Repr

def Error.message : Error → String
  | .unknown word => "Unknown instruction '" ++ word ++ "'"
  | .badCondition condition stem =>
    "Invalid condition '" ++ condition ++ "' for " ++ stem ++ "; expected one of " ++
      String.intercalate ", " (Condition.all.map Condition.name)
  | .needsTwoSuffixes => "Need two suffixes: each one of b, w, l, or q"
  | .suffixOrder => "First suffix must be smaller than the second"
  | .needsQuadSuffix stem => "Instruction " ++ stem ++ " only takes the suffix q"
  | .needsOneSuffix => "Need one suffix: b, w, l, or q"

/-- What is left of a word after a stem. -/
def afterStem? (stem : String) (word : List Char) : Option (List Char) :=
  if stem.toList <+: word then some (word.drop stem.toList.length) else none

/-- The first entry whose stem starts the word, with the rest of the word. -/
def matchStem? (opcodes : List Opcode) (word : List Char) : Option (Opcode × List Char) :=
  opcodes.findSome? fun opcode => (afterStem? opcode.name word).map (opcode, ·)

def decodeCondition (stem : String) (opcode : Condition → Opcode) (letters : List Char) :
    Except Error Mnemonic :=
  match Condition.ofName? (String.ofList letters) with
  | some condition => .ok (uniform (opcode condition) .byte)
  | none => .error (.badCondition (String.ofList letters) stem)

def decodeWidening (opcode : Opcode) (letters : List Char) : Except Error Mnemonic :=
  match letters.map Size.ofSuffix? with
  | [some source, some size] => if source < size then .ok ⟨opcode, size, source⟩ else .error .suffixOrder
  | _ => .error .needsTwoSuffixes

def decodeSized (opcode : Opcode) (letters : List Char) : Except Error Mnemonic :=
  match letters.map Size.ofSuffix? with
  | [some size] => .ok (uniform opcode size)
  | _ => .error .needsOneSuffix

/-- Reads a mnemonic in lower case. A word that starts like a conditional instruction or a widening
move is one of these or none, so both are tried before the plain stems, of which one starts every
widening move. -/
def decode (word : List Char) : Except Error Mnemonic :=
  if word = "jmp".toList then .ok (uniform .jmp .byte)
  else if let some letters := afterStem? "set" word then decodeCondition "set" .set letters
  else if let some letters := afterStem? "j" word then decodeCondition "j" .jumpIf letters
  else if let some (opcode, letters) := matchStem? Opcode.widening word then
    decodeWidening opcode letters
  else if let some (opcode, letters) := matchStem? Opcode.sized word then decodeSized opcode letters
  else if let some (opcode, letters) := matchStem? Opcode.quadOnly word then
    if letters = ['q'] then .ok (uniform opcode .quad) else .error (.needsQuadSuffix opcode.name)
  else .error (.unknown (String.ofList word))

end Mnemonic

end AsmLab
