import Mathlib
import AsmLab.Proofs.Source.FragmentCutting

/-! Lines in their encoding. A character takes one to four bytes, of which only those of ASCII
characters are below 128, so a byte scan for ASCII characters never stops inside another one. -/
namespace AsmLab.Source

/-- The bytes of a line in UTF-8. -/
def bytes (text : String) : List UInt8 :=
  text.toUTF8.data.toList

def encode (chars : List Char) : List UInt8 :=
  chars.flatMap String.utf8EncodeChar

theorem bytes_eq (text : String) : bytes text = encode text.toList := by
  have stored : text.toUTF8 = (encode text.toList).toByteArray :=
    (String.utf8Encode_toList (b := text)).symm
  rw [bytes, stored, List.data_toByteArray, List.toList_toArray]

@[simp]
theorem encode_cons (char : Char) (rest : List Char) :
    encode (char :: rest) = String.utf8EncodeChar char ++ encode rest :=
  rfl

@[simp]
theorem encode_append (first second : List Char) :
    encode (first ++ second) = encode first ++ encode second :=
  List.flatMap_append

/-- Bytes that characters take. -/
def byteLength (chars : List Char) : Nat :=
  (encode chars).length

@[simp]
theorem byteLength_nil : byteLength [] = 0 :=
  rfl

@[simp]
theorem byteLength_cons (char : Char) (rest : List Char) :
    byteLength (char :: rest) = char.utf8Size + byteLength rest := by
  rw [byteLength, encode_cons, List.length_append, String.length_utf8EncodeChar, byteLength]

@[simp]
theorem byteLength_append (first second : List Char) :
    byteLength (first ++ second) = byteLength first + byteLength second := by
  rw [byteLength, encode_append, List.length_append, byteLength, byteLength]

theorem byteLength_eq_zero {chars : List Char} : byteLength chars = 0 ↔ chars = [] := by
  cases chars with
  | nil => simp
  | cons char rest =>
    have taken := char.utf8Size_pos
    simp only [byteLength_cons, reduceCtorEq, iff_false]
    omega

/-- The ASCII character that a byte encodes. -/
def ascii? (byte : UInt8) : Option Char :=
  if byte < 128 then some (Char.ofNat byte.toNat) else none

theorem ascii?_eq_none {byte : UInt8} (high : 128 ≤ byte.toNat) : ascii? byte = none :=
  if_neg (Nat.not_lt.mpr high)

theorem encode_ascii {char : Char} (ascii : char.toNat < 128) :
    ∃ byte, String.utf8EncodeChar char = [byte] ∧ ascii? byte = some char := by
  have stored : (UInt8.ofNat char.toNat).toNat = char.toNat := by
    rw [UInt8.toNat_ofNat', Nat.mod_eq_of_lt (by omega)]
  have low : UInt8.ofNat char.toNat < 128 := UInt8.lt_iff_toNat_lt.mpr (stored.trans_lt ascii)
  refine ⟨UInt8.ofNat char.toNat, ?_, ?_⟩
  · rw [String.utf8EncodeChar]
    exact if_pos (Nat.le_of_lt_succ ascii)
  · rw [ascii?, if_pos low, stored, Char.ofNat_toNat]

theorem encode_wide {char : Char} (wide : ¬ char.toNat < 128) :
    ∀ byte ∈ String.utf8EncodeChar char, ascii? byte = none := by
  have first : ¬ char.val.toNat ≤ 127 := fun narrow => wide (Nat.lt_succ_of_le narrow)
  have marked (low : Nat) (high : Nat) (fits : low + high < 256) (mark : 128 ≤ high) :
      ascii? (UInt8.ofNat (low + high)) = none := by
    apply ascii?_eq_none
    rw [UInt8.toNat_ofNat', Nat.mod_eq_of_lt fits]
    omega
  intro byte member
  simp only [String.utf8EncodeChar, if_neg first] at member
  split at member
  · simp only [List.mem_cons, List.not_mem_nil, or_false] at member
    rcases member with rfl | rfl <;> exact marked _ _ (by omega) (by decide)
  · split at member
    · simp only [List.mem_cons, List.not_mem_nil, or_false] at member
      rcases member with rfl | rfl | rfl <;> exact marked _ _ (by omega) (by decide)
    · simp only [List.mem_cons, List.not_mem_nil, or_false] at member
      rcases member with rfl | rfl | rfl | rfl <;> exact marked _ _ (by omega) (by decide)

/-- The character that each of its bytes shows, if it is one of ASCII. -/
def shown? (char : Char) : Option Char :=
  if char.toNat < 128 then some char else none

theorem exists_byte (char : Char) {index : Nat} (inside : index < char.utf8Size) :
    ∃ byte, (String.utf8EncodeChar char)[index]? = some byte ∧ ascii? byte = shown? char := by
  rw [← String.length_utf8EncodeChar] at inside
  by_cases ascii : char.toNat < 128
  · obtain ⟨byte, encoded, same⟩ := encode_ascii ascii
    rw [encoded, List.length_singleton, Nat.lt_one_iff] at inside
    exact ⟨byte, by rw [encoded, inside, List.getElem?_cons_zero], same.trans (if_pos ascii).symm⟩
  · exact ⟨_, List.getElem?_eq_getElem inside,
      (encode_wide ascii _ (List.getElem_mem inside)).trans (if_neg ascii).symm⟩

theorem shown?_eq_some {char wanted : Char} (ascii : wanted.toNat < 128) :
    shown? char = some wanted ↔ char = wanted := by
  unfold shown?
  split
  · simp
  · rename_i wide
    simp only [reduceCtorEq, false_iff]
    rintro rfl
    exact wide ascii

theorem bind_shown?_eq_some {wanted : Char} (ascii : wanted.toNat < 128) (first : Option Char) :
    first.bind shown? = some wanted ↔ first = some wanted := by
  cases first with
  | none => simp
  | some char => simp [shown?_eq_some ascii]

/-- Only ASCII characters are accepted. -/
def AsciiOnly (accepts : Char → Bool) : Prop :=
  ∀ char, accepts char = true → char.toNat < 128

theorem shown?_any {accepts : Char → Bool} (asciiOnly : AsciiOnly accepts) (char : Char) :
    (shown? char).any accepts = accepts char := by
  unfold shown?
  split
  · rfl
  · rename_i wide
    exact (Bool.eq_false_iff.mpr fun accepted => wide (asciiOnly char accepted)).symm

theorem bind_shown?_any {accepts : Char → Bool} (asciiOnly : AsciiOnly accepts)
    (first : Option Char) : (first.bind shown?).any accepts = first.any accepts := by
  cases first with
  | none => rfl
  | some char => exact shown?_any asciiOnly char

theorem utf8Size_of_ascii {char : Char} (ascii : char.toNat < 128) : char.utf8Size = 1 :=
  Char.utf8Size_eq_one_iff.mpr (UInt32.le_iff_toNat_le.mpr (Nat.le_of_lt_succ ascii))

theorem asciiOnly_isBlank : AsciiOnly isBlank := by
  intro char blank
  simp only [isBlank, Bool.or_eq_true, decide_eq_true_eq] at blank
  rcases blank with (((same | same) | same) | same) | same <;> subst same <;> decide

theorem asciiOnly_isIdent : AsciiOnly isIdent := by
  intro char ident
  have letters : 'Z'.val.toNat = 90 ∧ 'z'.val.toNat = 122 ∧ '9'.val.toNat = 57 := by decide
  have code : char.toNat = char.val.toNat := rfl
  simp only [isIdent, Char.isAlphanum, Char.isAlpha, Char.isUpper, Char.isLower, Char.isDigit,
    Bool.or_eq_true, Bool.and_eq_true, decide_eq_true_eq, UInt32.le_iff_toNat_le, ge_iff_le] at ident
  rcases ident with (alphanumeric | same) | same
  · omega
  · subst same
    decide
  · subst same
    decide

theorem asciiOnly_isIdentStart : AsciiOnly isIdentStart :=
  fun char start => asciiOnly_isIdent char (isIdent_of_isIdentStart start)

/-- Number of characters in front of a byte, if a character starts or the line ends there. -/
def columnAt? : List Char → Nat → Option Nat
  | _, 0 => some 0
  | [], _ + 1 => none
  | char :: rest, offset =>
    if char.utf8Size ≤ offset then (columnAt? rest (offset - char.utf8Size)).map (· + 1) else none

theorem columnAt?_byteLength (before after : List Char) :
    columnAt? (before ++ after) (byteLength before) = some before.length := by
  induction before with
  | nil => cases after <;> rfl
  | cons char rest ih =>
    have taken := char.utf8Size_pos
    have inside : char.utf8Size ≤ byteLength (char :: rest) := by simp
    have remaining : byteLength (char :: rest) - char.utf8Size = byteLength rest := by simp
    have nonzero : byteLength (char :: rest) ≠ 0 := by omega
    rw [List.cons_append, columnAt?.eq_3 _ _ _ nonzero, if_pos inside, remaining, ih]
    rfl

theorem exists_of_columnAt? {chars : List Char} {offset column : Nat}
    (found : columnAt? chars offset = some column) :
    ∃ before after, chars = before ++ after ∧ byteLength before = offset ∧
      before.length = column := by
  fun_induction columnAt? chars offset generalizing column with
  | case1 chars =>
    obtain rfl := Option.some.inj found
    exact ⟨[], chars, rfl, rfl, rfl⟩
  | case2 => cases found
  | case3 char rest offset nonzero inside ih =>
    obtain ⟨previous, foundRest, rfl⟩ := Option.map_eq_some_iff.mp found
    obtain ⟨before, after, rfl, length, rfl⟩ := ih foundRest
    refine ⟨char :: before, after, rfl, ?_, rfl⟩
    rw [byteLength_cons, length]
    omega
  | case4 => cases found

theorem byteLength_toList (text : String) : byteLength text.toList = text.utf8ByteSize := by
  rw [byteLength, ← bytes_eq]
  rfl

/-- Columns are told for the boundaries between characters, and for no other position. -/
theorem columnAt?_isSome_iff (text : String) (offset : Nat) :
    (columnAt? text.toList offset).isSome = true ↔ (⟨offset⟩ : String.Pos.Raw).IsValid text := by
  rw [Option.isSome_iff_exists, String.Pos.Raw.isValid_iff_exists_append]
  constructor
  · rintro ⟨column, found⟩
    obtain ⟨before, after, whole, length, -⟩ := exists_of_columnAt? found
    refine ⟨.ofList before, .ofList after, ?_, ?_⟩
    · rw [← String.ofList_append, ← whole, String.ofList_toList]
    · rw [← length, String.rawEndPos, ← byteLength_toList, String.toList_ofList]
  · rintro ⟨before, after, rfl, position⟩
    have offsetEq : offset = byteLength before.toList :=
      (congrArg String.Pos.Raw.byteIdx position).trans (byteLength_toList before).symm
    rw [String.toList_append, offsetEq, columnAt?_byteLength]
    exact ⟨_, rfl⟩

end AsmLab.Source
