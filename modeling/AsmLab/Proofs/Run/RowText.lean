import AsmLab.Proofs.Source.OperandText
import AsmLab.Report.Trace

/-! What a row of the trace says, read from its text and from nothing else. The last column of a row has
the changes of registers and the flags, so what the line of the row looks like does not matter. -/
namespace AsmLab

namespace Style

/-- A text without the codes of its styles. A code goes on to the first `m`, and `inCode` tells whether one
has begun. -/
def unpaint (inCode : Bool) : List Char → List Char
  | [] => []
  | char :: rest =>
    if inCode then unpaint (char ≠ 'm') rest
    else if char = escape then unpaint true rest
    else char :: unpaint false rest

variable {char : Char} {chars : List Char}

theorem reopen_eq_self {opening : List Char} (plain : escape ∉ chars) :
    reopen opening chars = chars := by
  fun_induction reopen opening chars with
  | case1 => rfl
  | case2 => exact absurd List.mem_cons_self plain
  | case3 _ _ _ ih => rw [ih (List.not_mem_of_not_mem_cons plain)]

theorem unpaint_plain (plain : escape ∉ chars) (rest : List Char) :
    unpaint false (chars ++ rest) = chars ++ unpaint false rest := by
  induction chars with
  | nil => rfl
  | cons char chars ih =>
    obtain ⟨other, plain⟩ := List.ne_and_not_mem_of_not_mem_cons plain
    simp [unpaint, Ne.symm other, ih plain]

theorem unpaint_code (unended : 'm' ∉ chars) (rest : List Char) :
    unpaint false (escape :: chars ++ 'm' :: rest) = unpaint false rest := by
  have ends : unpaint true (chars ++ 'm' :: rest) = unpaint false rest := by
    induction chars with
    | nil => rfl
    | cons char chars ih =>
      obtain ⟨other, unended⟩ := List.ne_and_not_mem_of_not_mem_cons unended
      simp [unpaint, Ne.symm other, ih unended]
  rwa [List.cons_append, unpaint, if_neg Bool.false_ne_true, if_pos rfl]

variable (style : Style) (coloured : Bool) {text : String}

/-- The numbers of a style, with semicolons between them. -/
def numbers : List Char :=
  (String.intercalate ";" (style.codes.map Numeral.decimal)).toList

theorem opening_eq : style.opening = escape :: ('[' :: style.numbers) ++ ['m'] :=
  rfl

theorem not_mem_numbers (apart : char ≠ ';') (nondigit : Numeral.isDigit 10 char = false) :
    char ∉ style.numbers := by
  intro member
  rw [numbers, String.toList_intercalate] at member
  change char ∈ [';'].intercalate _ at member
  rcases Source.mem_intercalate member with same | ⟨part, listed, inside⟩
  · exact apart same
  · simp only [List.map_map, List.mem_map, Function.comp_apply] at listed
    obtain ⟨number, _, rfl⟩ := listed
    rw [Numeral.decimal, String.toList_ofList] at inside
    rw [Numeral.isDigit_of_mem (Numeral.isNumeral_decimal number) inside] at nondigit
    cases nondigit

theorem toList_paint (plain : escape ∉ text.toList) :
    (style.paint coloured text).toList =
      if coloured && style ≠ .plain then style.opening ++ text.toList ++ reset else text.toList := by
  rw [paint, paintLaidOut]
  split
  · simp [reopen_eq_self plain]
  · rfl

theorem not_mem_paint (plain : escape ∉ text.toList) (absent : char ∉ text.toList)
    (uncoded : char ∉ [escape, '[', '0', 'm', ';']) (nondigit : Numeral.isDigit 10 char = false) :
    char ∉ (style.paint coloured text).toList := by
  simp only [List.mem_cons, List.not_mem_nil, or_false, not_or] at uncoded
  have unnumbered := style.not_mem_numbers uncoded.2.2.2.2 nondigit
  rw [toList_paint style coloured plain]
  split
  · simp [opening_eq, reset, absent, uncoded, unnumbered]
  · exact absent

/-- Without its codes a painted text is the text itself. -/
theorem unpaint_paint (plain : escape ∉ text.toList) (rest : List Char) :
    unpaint false ((style.paint coloured text).toList ++ rest) =
      text.toList ++ unpaint false rest := by
  have unended : 'm' ∉ '[' :: style.numbers :=
    List.not_mem_cons_of_ne_of_not_mem (by decide) (style.not_mem_numbers (by decide) (by decide))
  rw [toList_paint style coloured plain]
  split
  · rw [opening_eq, List.append_assoc, List.append_assoc, List.append_assoc, List.singleton_append,
      unpaint_code unended, unpaint_plain plain]
    exact congrArg (text.toList ++ ·) (unpaint_code (by decide : 'm' ∉ ['[', '0']) rest)
  · exact unpaint_plain plain rest

end Style

namespace Tracer

/-- What a row says: the changes of registers, and the flags if it has them. -/
structure Said where
  changes : List (Gpr × BitVec 64 × BitVec 64)
  flags? : Option Flags
  deriving DecidableEq

namespace Said

def readWord? (digits : List Char) : Option (BitVec 64) :=
  if Numeral.isNumeral 16 digits && Numeral.value 16 digits < Numeral.wordLimit then
    some (BitVec.ofNat 64 (Numeral.value 16 digits))
  else none

/-- The name of a register, what it held and what it holds, as in `RAX=0->5`. -/
def readChange? (word : List Char) : Option (Gpr × BitVec 64 × BitVec 64) :=
  match word.splitOn '=' with
  | [name, contents] =>
    match contents.splitOn '-' with
    | [old, '>' :: new] => do
      let register ← Gpr.all.find? (·.upperName == String.ofList name)
      return (register, ← readWord? old, ← readWord? new)
    | _ => none
  | _ => none

def readFlag? (letter char : Char) : Option Bool :=
  if char = letter then some true else if char = '-' then some false else none

/-- The flags by their letters, as in `Z--C`. -/
def readFlags? : List Char → Option Flags
  | [zero, sign, overflow, carry] => do
    return ⟨← readFlag? 'Z' zero, ← readFlag? 'S' sign, ← readFlag? 'O' overflow,
      ← readFlag? 'C' carry⟩
  | _ => none

/-- The words of the last column. The last of them is for the flags and may be empty. -/
def readWords? (words : List (List Char)) : Option Said := do
  let changes ← (words.dropLast.filter (· ≠ [])).mapM readChange?
  match words.getLast? with
  | none | some [] => return ⟨changes, none⟩
  | some letters => return ⟨changes, some (← readFlags? letters)⟩

/-- What a row says behind its last bar. -/
def read? (text : String) : Option Said := do
  let column ← (text.toList.splitOn '|').getLast?
  match (Style.unpaint false column).splitOn '\n' with
  | [' ' :: cells, []] => readWords? (cells.splitOn ' ')
  | _ => none

end Said

/-- What stands between the parts of a row. -/
def separators : List Char :=
  [' ', '|', '\n', Style.escape]

section Words

variable {char : Char} (number : Nat) (word : BitVec 64)

theorem not_mem_hex (nondigit : Numeral.isDigit 16 char = false) :
    char ∉ (Numeral.hex number).toList := by
  intro member
  rw [Numeral.hex, String.toList_ofList] at member
  rw [Numeral.isDigit_of_mem (Numeral.isNumeral_toDigits 16 (by decide) (by decide) number) member]
    at nondigit
  cases nondigit

theorem readWord?_hex : Said.readWord? (Numeral.hex word.toNat).toList = some word := by
  have numeral := Numeral.isNumeral_toDigits 16 (by decide) (by decide) word.toNat
  have value := Numeral.value_toDigits 16 (by decide) (by decide) word.toNat
  have small : word.toNat < Numeral.wordLimit := word.isLt
  rw [Said.readWord?, Numeral.hex, String.toList_ofList, numeral, value]
  simp [small]

end Words

section Changes

variable {char : Char} (change : Gpr × BitVec 64 × BitVec 64)

theorem not_mem_upperName (register : Gpr) :
    ∀ char ∈ '=' :: separators, char ∉ register.upperName.toList := by
  have all : ∀ register ∈ Gpr.all,
      ('=' :: separators).all (· ∉ register.upperName.toList) = true := by decide +kernel
  simpa using all register register.mem_all

theorem find?_upperName (register : Gpr) :
    Gpr.all.find? (·.upperName == register.upperName) = some register := by
  have all : ∀ register ∈ Gpr.all,
      Gpr.all.find? (·.upperName == register.upperName) = some register := by decide +kernel
  exact all register register.mem_all

theorem toList_changeText (register : Gpr) (old new : BitVec 64) :
    (changeText (register, old, new)).toList =
      register.upperName.toList ++ '=' :: ((Numeral.hex old.toNat).toList ++
        '-' :: '>' :: (Numeral.hex new.toNat).toList) := by
  simp [changeText]

theorem readChange?_changeText : Said.readChange? (changeText change).toList = some change := by
  obtain ⟨register, old, new⟩ := change
  have unnamed := not_mem_upperName register '=' List.mem_cons_self
  have undashed (number : Nat) : '-' ∉ (Numeral.hex number).toList := not_mem_hex number (by decide)
  have unmarked (number : Nat) : '=' ∉ (Numeral.hex number).toList := not_mem_hex number (by decide)
  rw [toList_changeText, Said.readChange?, List.splitOn_append_cons_self_of_not_mem unnamed,
    List.splitOn_eq_singleton (by simp [unmarked])]
  simp only
  rw [List.splitOn_append_cons_self_of_not_mem (undashed old.toNat),
    List.splitOn_eq_singleton (by simp [undashed])]
  simp [find?_upperName, readWord?_hex]

theorem not_mem_changeText :
    ∀ char ∈ separators, char ∉ (changeText change).toList := by
  obtain ⟨register, old, new⟩ := change
  intro char listed
  have unnamed := not_mem_upperName register char (List.mem_cons_of_mem '=' listed)
  have others : separators.all (fun char => !Numeral.isDigit 16 char && char ∉ ['=', '-', '>']) := by
    decide
  simp only [List.all_eq_true, Bool.and_eq_true, Bool.not_eq_true', decide_eq_true_eq,
    List.mem_cons, List.not_mem_nil, or_false, not_or] at others
  obtain ⟨undigit, others⟩ := others char listed
  rw [toList_changeText]
  simp [unnamed, others, not_mem_hex _ undigit]

end Changes

section Letters

variable (flags : Flags)

theorem readFlags?_letters : Said.readFlags? flags.letters.toList = some flags := by
  obtain ⟨zero, sign, overflow, carry⟩ := flags
  revert zero sign overflow carry
  decide

theorem not_mem_letters :
    ∀ char ∈ separators, char ∉ flags.letters.toList := by
  have all : ∀ zero sign overflow carry : Bool,
      separators.all (· ∉ (Flags.mk zero sign overflow carry).letters.toList) = true := by decide
  simpa using all flags.zero flags.sign flags.overflow flags.carry

end Letters

variable (changes : List (Gpr × BitVec 64 × BitVec 64)) (flags? : Option Flags)

/-- The column of the changes, before it is painted. -/
def changesText : String :=
  String.intercalate " " (changes.map changeText)

/-- The column of the flags, before it is painted. -/
def flagsText : String :=
  flags?.elim "" Flags.letters

theorem toList_changesText :
    (changesText changes).toList = [' '].intercalate (changes.map (String.toList ∘ changeText)) := by
  rw [changesText, String.toList_intercalate, List.map_map]
  rfl

theorem not_mem_changesText :
    ∀ char ∈ ['|', '\n', Style.escape], char ∉ (changesText changes).toList := by
  intro char listed member
  rw [toList_changesText] at member
  rcases Source.mem_intercalate member with rfl | ⟨part, among, inside⟩
  · exact absurd listed (by decide)
  · obtain ⟨change, _, rfl⟩ := List.mem_map.mp among
    exact not_mem_changeText change char (List.mem_cons_of_mem ' ' listed) inside

theorem not_mem_flagsText : ∀ char ∈ separators, char ∉ (flagsText flags?).toList := by
  cases flags? with
  | none => exact fun _ _ => List.not_mem_nil
  | some flags => exact not_mem_letters flags

/-- Cut at its blanks, the column of the changes gives their texts. -/
theorem filter_splitOn_changesText :
    ((changesText changes).toList.splitOn ' ').filter (· ≠ []) =
      changes.map (String.toList ∘ changeText) := by
  rw [toList_changesText]
  cases changes with
  | nil => rfl
  | cons change rest =>
    have unblank : ∀ word ∈ (change :: rest).map (String.toList ∘ changeText), ' ' ∉ word := by
      intro word listed
      obtain ⟨change, _, rfl⟩ := List.mem_map.mp listed
      exact not_mem_changeText change ' ' List.mem_cons_self
    rw [List.splitOn_intercalate _ unblank (List.cons_ne_nil _ _), List.filter_eq_self]
    intro word listed
    obtain ⟨⟨register, old, new⟩, _, rfl⟩ := List.mem_map.mp listed
    simp [toList_changeText]

theorem mapM_readChange? :
    (changes.map (String.toList ∘ changeText)).mapM Said.readChange? = some changes := by
  induction changes with
  | nil => rfl
  | cons change rest ih => simp [readChange?_changeText, ih]

theorem readWords?_texts :
    Said.readWords? ((changesText changes).toList.splitOn ' ' ++ [(flagsText flags?).toList]) =
      some ⟨changes, flags?⟩ := by
  rw [Said.readWords?, List.dropLast_concat, List.getLast?_concat, filter_splitOn_changesText,
    mapM_readChange?]
  cases flags? with
  | none => rfl
  | some flags =>
    have read := readFlags?_letters flags
    cases letters : flags.letters.toList with
    | nil =>
      rw [letters] at read
      cases read
    | cons first rest =>
      rw [letters] at read
      simp [flagsText, letters, read]

section Painted

variable (coloured : Bool)

/-- The column of the flags as a row has it. -/
def paintedFlags : String :=
  flags?.elim "" (Style.brightCyan.paint coloured ·.letters)

/-- The codes of a style have nothing that stands between the columns. -/
theorem not_mem_painted (style : Style) {text : String}
    (plain : ∀ char ∈ ['|', '\n', Style.escape], char ∉ text.toList) :
    ∀ char ∈ ['|', '\n'], char ∉ (style.paint coloured text).toList := by
  intro char separates
  have unescaped := plain Style.escape (by decide)
  rcases List.mem_pair.mp separates with rfl | rfl <;>
    exact style.not_mem_paint coloured unescaped (plain _ (by decide)) (by decide) (by decide)

theorem not_mem_paintedFlags :
    ∀ char ∈ ['|', '\n'], char ∉ (paintedFlags flags? coloured).toList := by
  cases flags? with
  | none => exact fun _ _ => List.not_mem_nil
  | some flags =>
    exact not_mem_painted coloured Style.brightCyan fun char listed =>
      not_mem_letters flags char (List.mem_cons_of_mem ' ' listed)

theorem unpaint_paintedFlags (rest : List Char) :
    Style.unpaint false ((paintedFlags flags? coloured).toList ++ rest) =
      (flagsText flags?).toList ++ Style.unpaint false rest := by
  cases flags? with
  | none => rfl
  | some flags => exact Style.unpaint_paint _ _ (not_mem_letters flags _ (by decide)) rest

/-- The last column of a row without its colours. -/
theorem unpaint_column :
    Style.unpaint false (' ' :: ((Style.brightBlue.paint coloured (changesText changes)).toList ++
        ' ' :: ((paintedFlags flags? coloured).toList ++ ['\n']))) =
      ' ' :: ((changesText changes).toList ++ ' ' :: (flagsText flags?).toList) ++ ['\n'] := by
  have blank (rest : List Char) : Style.unpaint false (' ' :: rest) = ' ' :: Style.unpaint false rest :=
    rfl
  rw [blank, Style.unpaint_paint _ _ (not_mem_changesText changes _ (by decide)), blank,
    unpaint_paintedFlags]
  simp [Style.unpaint, Style.escape]

end Painted

/-- What a row says can be read from its text, whatever its line is and whether it is coloured. -/
theorem read?_row (tracer : Tracer) (count : Nat) (line : Line) (before after : Machine) :
    Said.read? (tracer.row count line before after) =
      some ⟨changedRegisters before after, changedFlags before after⟩ := by
  let changes := changedRegisters before after
  let flags? := changedFlags before after
  let cells := (changesText changes).toList ++ ' ' :: (flagsText flags?).toList
  let column := ' ' :: ((Style.brightBlue.paint tracer.coloured (changesText changes)).toList ++
    ' ' :: ((paintedFlags flags? tracer.coloured).toList ++ ['\n']))
  obtain ⟨lead, laid⟩ : ∃ lead, tracer.row count line before after =
      lead ++ " | " ++ Style.brightBlue.paint tracer.coloured (changesText changes) ++ " " ++
        paintedFlags flags? tracer.coloured ++ "\n" := ⟨_, rfl⟩
  have whole : (tracer.row count line before after).toList =
      (lead.toList ++ [' ']) ++ '|' :: column := by
    simp [laid, column]
  have unbarred : '|' ∉ column := by
    have first := not_mem_painted tracer.coloured Style.brightBlue (not_mem_changesText changes) '|'
      List.mem_cons_self
    have second := not_mem_paintedFlags flags? tracer.coloured '|' List.mem_cons_self
    simp [column, first, second]
  have unbroken : '\n' ∉ ' ' :: cells := by
    have first := not_mem_changesText changes '\n' (by decide)
    have second := not_mem_flagsText flags? '\n' (by decide)
    simp [cells, first, second]
  have unblank : ' ' ∉ (flagsText flags?).toList := not_mem_flagsText flags? ' ' (by decide)
  have words : cells.splitOn ' ' =
      (changesText changes).toList.splitOn ' ' ++ [(flagsText flags?).toList] := by
    rw [List.splitOn_append_cons_self, List.splitOn_eq_singleton unblank]
  have ended : (' ' :: cells ++ ['\n']).splitOn '\n' = [' ' :: cells, []] := by
    rw [List.splitOn_append_cons_self_of_not_mem unbroken, List.splitOn_nil]
  rw [Said.read?, whole, List.splitOn_append_cons_self, List.splitOn_eq_singleton unbarred,
    List.getLast?_concat]
  simp only [Option.bind_eq_bind, Option.bind_some, column, unpaint_column, ended, cells, words]
  exact readWords?_texts changes flags?

end Tracer

end AsmLab
