import AsmLab.Proofs.Source.AddressParts
import AsmLab.Proofs.Source.DisplacementGrammar
import AsmLab.Proofs.Source.ImmediateGrammar

/-! Which addresses a place for memory takes. The grammar is an optional displacement, parentheses with
the parts of the address between them, and nothing behind. It differs from what is read where the
displacement does. -/
namespace AsmLab.Source

/-- An address, with what is spelled in front of its parentheses. -/
def SpellsAddress (chars spelled : List Char) (base : Register) (index : Option Register)
    (scale : Nat) : Prop :=
  ∃ front inner back, chars = (front ++ '(' :: inner) ++ ')' :: back ∧
    Padded (· = spelled) front ∧ SpellsParts inner base index scale ∧
    ∀ char ∈ back, isBlank char = true

/-- A memory reference in a language of displacements. Without a displacement it is zero. -/
def SpellsReference (denotes : List Char → Int → Prop) (chars : List Char)
    (reference : MemoryRef) : Prop :=
  ∃ spelled, SpellsAddress chars spelled reference.base reference.index reference.scale ∧
    (spelled = [] ∧ reference.displacement = 0 ∨ denotes spelled reference.displacement.toInt)

section Memory

variable {slot : Slot} {start : Nat} {chars lead inner after : List Char} {operand : Operand String}

/-- The displacement that is read in front of the parentheses. -/
def ReadsDisplacement (spelled : List Char) (displacement : BitVec 64) : Prop :=
  spelled = [] ∧ displacement = 0 ∨ readDisplacement? spelled = some displacement

theorem readMemoryOperand_closed_iff (admitted : slot.memory = true) (noOpening : '(' ∉ lead)
    (noClosing : ')' ∉ after) :
    readMemoryOperand slot ⟨start, (lead ++ '(' :: inner) ++ ')' :: after⟩ = .ok operand ↔
      (∀ char ∈ after, isBlank char = true) ∧
        ∃ reference, operand = .memory reference ∧
          SpellsParts inner reference.base reference.index reference.scale ∧
          ReadsDisplacement (Fragment.trim ⟨start, lead⟩).chars reference.displacement := by
  have splits : Fragment.splitLast? ')' ⟨start, (lead ++ '(' :: inner) ++ ')' :: after⟩ = _ :=
    Fragment.splitLast?_append ')' (lead ++ '(' :: inner) noClosing
  have led : Fragment.takeWhile ⟨start, lead ++ '(' :: inner⟩ (· ≠ '(') = ⟨start, lead⟩ :=
    Fragment.takeWhile_ne_append noOpening inner
  have opened : Fragment.dropWhile ⟨start, lead ++ '(' :: inner⟩ (· ≠ '(') =
      ⟨start + lead.length, '(' :: inner⟩ :=
    Fragment.dropWhile_ne_append noOpening inner
  have visible : ¬ Fragment.isEmpty ⟨start + lead.length, '(' :: inner⟩ = true :=
    Bool.false_ne_true
  rw [readMemoryOperand, admitted]
  simp only [Bool.not_true, Bool.false_eq_true, ↓reduceIte, splits, led, opened]
  rw [if_neg visible, ← isEmpty_trim_iff (start + ((lead ++ '(' :: inner).length + 1)) after]
  by_cases ended : (Fragment.trim ⟨start + ((lead ++ '(' :: inner).length + 1), after⟩).isEmpty = true
  · simp only [ended, Bool.not_true, Bool.false_eq_true, ↓reduceIte, true_and]
    generalize Fragment.trim ⟨start, lead⟩ = spelled
    by_cases absent : spelled.isEmpty = true
    · have nothing : spelled.chars = [] := Fragment.isEmpty_iff.mp absent
      have unread : readDisplacement? [] = none := rfl
      simp only [absent, ↓reduceIte, ReadsDisplacement, nothing, true_and, unread, reduceCtorEq,
        or_false]
      exact readReference_iff
    · have something : spelled.chars ≠ [] := Fragment.isEmpty_iff.not.mp absent
      simp only [absent, ReadsDisplacement, something, false_and, false_or, Bool.false_eq_true,
        ↓reduceIte]
      cases read : readDisplacement? spelled.chars with
      | none => simp [reject]
      | some displacement =>
        simp only [Option.some.injEq, eq_comm (a := displacement)]
        exact readReference_iff
  · simp only [eq_false_of_ne_true ended, Bool.not_false, ↓reduceIte, Bool.false_eq_true, false_and,
      iff_false]
    intro read
    cases read

theorem readOperand_eq_readMemoryOperand {piece : Fragment} (opens : '(' ∈ piece.chars) :
    readOperand slot piece = readMemoryOperand slot piece :=
  if_pos opens

theorem readMemoryOperand_of_spells (admitted : slot.memory = true) {spelled : List Char}
    (noOpening : '(' ∉ spelled) (trimmed : Trimmed spelled) {reference : MemoryRef}
    (address : SpellsAddress chars spelled reference.base reference.index reference.scale)
    (reads : ReadsDisplacement spelled reference.displacement) :
    readMemoryOperand slot ⟨start, chars⟩ = .ok (.memory reference) := by
  obtain ⟨front, inner, back, rfl, padded, parts, blank⟩ := address
  have opening : '(' ∉ front := padded.not_mem (by decide) fun part same => same ▸ noOpening
  have closing : ')' ∉ back := not_mem_of_forall ')' blank (by decide)
  rw [readMemoryOperand_closed_iff admitted opening closing]
  refine ⟨blank, reference, rfl, parts, ?_⟩
  obtain ⟨before, _, after, rfl, rfl, blankBefore, blankAfter⟩ := padded
  rwa [chars_trim start trimmed blankBefore blankAfter]

theorem readMemoryOperand_crossed_ne_ok {front rest : List Char} (admitted : slot.memory = true)
    (noOpening : '(' ∉ front ++ ')' :: lead) (noClosing : ')' ∉ lead ++ '(' :: rest) :
    readMemoryOperand slot ⟨start, front ++ ')' :: (lead ++ '(' :: rest)⟩ ≠ .ok operand := by
  have inFront : '(' ∉ front := fun member => noOpening (by simp [member])
  have splits : Fragment.splitLast? ')' ⟨start, front ++ ')' :: (lead ++ '(' :: rest)⟩ = _ :=
    Fragment.splitLast?_append ')' front noClosing
  have opened : Fragment.dropWhile ⟨start, front⟩ (· ≠ '(') = ⟨start + front.length, []⟩ :=
    Fragment.dropWhile_ne_eq inFront
  have nothing : Fragment.isEmpty ⟨start + front.length, []⟩ = true := rfl
  intro read
  rw [readMemoryOperand, admitted] at read
  simp only [Bool.not_true, Bool.false_eq_true, ↓reduceIte, splits, opened] at read
  rw [if_pos nothing] at read
  cases read

theorem spells_of_readMemoryOperand {piece : Fragment} (admitted : slot.memory = true)
    (opens : '(' ∈ piece.chars) (read : readMemoryOperand slot piece = .ok operand) :
    ∃ reference spelled, operand = .memory reference ∧
      SpellsAddress piece.chars spelled reference.base reference.index reference.scale ∧
      ReadsDisplacement spelled reference.displacement := by
  obtain ⟨start, chars⟩ := piece
  cases Fragment.parentheses_of_mem opens with
  | unclosed noClosing =>
    have splits : Fragment.splitLast? ')' ⟨start, chars⟩ = none :=
      Fragment.splitLast?_eq_none noClosing
    rw [readMemoryOperand, admitted, splits] at read
    cases read
  | crossed front lead rest noOpening noClosing =>
    exact absurd read (readMemoryOperand_crossed_ne_ok admitted noOpening noClosing)
  | closed lead inner after noOpening noClosing =>
    obtain ⟨blank, reference, rfl, parts, reads⟩ :=
      (readMemoryOperand_closed_iff admitted noOpening noClosing).mp read
    obtain ⟨before, behind, whole, blankBefore, blankBehind, _⟩ :=
      Fragment.exists_trim_eq start lead
    refine ⟨reference, _, rfl, ?_, reads⟩
    exact ⟨lead, inner, after, rfl, ⟨before, _, behind, whole, rfl, blankBefore, blankBehind⟩, parts,
      blank⟩

/-- The letters of a displacement leave the parentheses and the blanks around it alone. -/
theorem plain_of_isNumberChar {spelled : List Char}
    (letters : ∀ char ∈ spelled, isNumberChar char = true) :
    '(' ∉ spelled ∧ Trimmed spelled := by
  have visible (char : Char) (letter : isNumberChar char = true) : isBlank char = false := by
    simp only [isNumberChar, Bool.or_eq_true, decide_eq_true_eq] at letter
    rcases letter with (ident | rfl) | rfl
    · exact isBlank_of_isIdent ident
    · decide
    · decide
  refine ⟨not_mem_of_forall '(' letters (by decide), ?_, ?_⟩
  · intro char first
    exact visible char (letters char (List.mem_of_head? first))
  · intro char last
    exact visible char (letters char (List.mem_of_getLast? last))

theorem SpellsDisplacement.plain {spelled : List Char} {value : Int}
    (displaced : SpellsDisplacement spelled value) : '(' ∉ spelled ∧ Trimmed spelled := by
  obtain ⟨⟨radix, number⟩, _⟩ := displaced
  exact plain_of_isNumberChar number.isNumberChar

theorem ResignedDisplacement.plain {spelled : List Char} {value : Int}
    (resigned : ResignedDisplacement spelled value) : '(' ∉ spelled ∧ Trimmed spelled :=
  plain_of_isNumberChar resigned.isNumberChar

theorem readMemoryOperand_eq_ok_iff {piece : Fragment} (admitted : slot.memory = true)
    (opens : '(' ∈ piece.chars) :
    readMemoryOperand slot piece = .ok operand ↔
      ∃ reference, operand = .memory reference ∧
        SpellsReference TakenDisplacement piece.chars reference := by
  constructor
  · intro read
    obtain ⟨reference, spelled, rfl, address, reads⟩ :=
      spells_of_readMemoryOperand admitted opens read
    refine ⟨reference, rfl, spelled, address, ?_⟩
    rwa [ReadsDisplacement, readDisplacement?_eq_some_iff] at reads
  · intro spells
    obtain ⟨reference, rfl, spelled, address, reads⟩ := spells
    have plain : '(' ∉ spelled ∧ Trimmed spelled := by
      rcases reads with ⟨rfl, _⟩ | ⟨displaced, _⟩ | resigned
      · exact ⟨List.not_mem_nil, trimmed_nil⟩
      · exact displaced.plain
      · exact resigned.plain
    rw [← readDisplacement?_eq_some_iff] at reads
    exact readMemoryOperand_of_spells admitted plain.1 plain.2 address reads

/-- What is spelled in front of the parentheses is told by the text. -/
theorem SpellsAddress.unique {first second : List Char} {base other : Register}
    {index otherIndex : Option Register} {scale otherScale : Nat}
    (address : SpellsAddress chars first base index scale)
    (again : SpellsAddress chars second other otherIndex otherScale)
    (plain : '(' ∉ first ∧ Trimmed first) (plainAgain : '(' ∉ second ∧ Trimmed second) :
    first = second := by
  have cut {spelled : List Char} {base : Register} {index : Option Register} {scale : Nat}
      (address : SpellsAddress chars spelled base index scale)
      (plain : '(' ∉ spelled ∧ Trimmed spelled) :
      (Fragment.trim ⟨0, chars.takeWhile (· ≠ '(')⟩).chars = spelled := by
    obtain ⟨front, inner, back, rfl, padded, _⟩ := address
    have opening : '(' ∉ front := padded.not_mem (by decide) fun part same => same ▸ plain.1
    have front : Fragment.takeWhile ⟨0, front ++ '(' :: (inner ++ ')' :: back)⟩ (· ≠ '(') =
        ⟨0, front⟩ := Fragment.takeWhile_ne_append opening _
    rw [List.append_assoc, List.cons_append, show List.takeWhile _ _ = _ from
      congrArg Fragment.chars front]
    obtain ⟨before, _, after, rfl, rfl, blankBefore, blankAfter⟩ := padded
    exact chars_trim 0 plain.2 blankBefore blankAfter
  rw [← cut address plain, ← cut again plainAgain]

theorem ResignedDisplacement.exists_word {spelled : List Char} {value : Int}
    (resigned : ResignedDisplacement spelled value) :
    ∃ displacement : BitVec 64, ResignedDisplacement spelled displacement.toInt := by
  have word : (BitVec.ofInt 64 value).toInt = value := by
    cases resigned with
    | hex => rw [BitVec.toInt_ofInt, Int.bmod_bmod]
  exact ⟨BitVec.ofInt 64 value, word.symm ▸ resigned⟩

/-- With a displacement that is misread, the text is read or is in the grammar, but not both alike. -/
theorem not_same_of_misread {spelled : List Char} {base : Register} {index : Option Register}
    {scale : Nat} (address : SpellsAddress chars spelled base index scale)
    (misread : MisreadDisplacement spelled) :
    ¬ ∀ reference, SpellsReference TakenDisplacement chars reference ↔
      SpellsReference SpellsDisplacement chars reference := by
  intro same
  rcases misread with lowest | ⟨value, resigned⟩
  · have nonzero : BitVec.ofInt 64 (-(2 : Int) ^ 63) ≠ 0 := by decide
    have value : (BitVec.ofInt 64 (-(2 : Int) ^ 63)).toInt = -(2 : Int) ^ 63 := by decide
    obtain ⟨again, address', zero | ⟨_, notLowest⟩ | resigned⟩ :=
      (same ⟨BitVec.ofInt 64 (-(2 : Int) ^ 63), base, index, scale⟩).mpr
        ⟨spelled, address, .inr (value.symm ▸ lowest)⟩
    · exact nonzero zero.2
    · exact notLowest value
    · obtain rfl := address.unique address' lowest.plain resigned.plain
      exact resigned.not_spells lowest
  · obtain ⟨displacement, resigned⟩ := resigned.exists_word
    obtain ⟨again, address', zero | displaced⟩ := (same ⟨displacement, base, index, scale⟩).mp
      ⟨spelled, address, .inr (.inr resigned)⟩
    · obtain rfl := address.unique address' resigned.plain
        (zero.1 ▸ ⟨List.not_mem_nil, trimmed_nil⟩)
      exact resigned.ne_nil zero.1
    · obtain rfl := address.unique address' resigned.plain displaced.plain
      exact resigned.not_spells displaced

theorem SpellsAddress.not_misread {spelled : List Char} {base : Register} {index : Option Register}
    {scale : Nat} {value : Int} (address : SpellsAddress chars spelled base index scale)
    (displaced : SpellsDisplacement spelled value) (notLowest : value ≠ -(2 : Int) ^ 63) :
    ¬ ∃ spelled base index scale, SpellsAddress chars spelled base index scale ∧
      MisreadDisplacement spelled := by
  intro misread
  obtain ⟨other, _, _, _, again, misread⟩ := misread
  rcases misread with lowest | ⟨_, resigned⟩
  · obtain rfl := address.unique again displaced.plain lowest.plain
    exact notLowest (displaced.unique lowest)
  · obtain rfl := address.unique again displaced.plain resigned.plain
    exact resigned.not_spells displaced

/-- What is read and what the grammar has are the same for a text unless its displacement is misread. -/
theorem spellsReference_taken_iff :
    (∀ reference, SpellsReference TakenDisplacement chars reference ↔
        SpellsReference SpellsDisplacement chars reference) ↔
      ¬ ∃ spelled base index scale, SpellsAddress chars spelled base index scale ∧
        MisreadDisplacement spelled := by
  constructor
  · intro same misread
    obtain ⟨spelled, base, index, scale, address, misread⟩ := misread
    exact not_same_of_misread address misread same
  · intro clean reference
    constructor
    · intro taken
      obtain ⟨spelled, address, zero | ⟨displaced, _⟩ | resigned⟩ := taken
      · exact ⟨spelled, address, .inl zero⟩
      · exact ⟨spelled, address, .inr displaced⟩
      · exact absurd ⟨spelled, _, _, _, address, .inr ⟨_, resigned⟩⟩ clean
    · intro spelled
      obtain ⟨spelled, address, zero | displaced⟩ := spelled
      · exact ⟨spelled, address, .inl zero⟩
      · by_cases lowest : reference.displacement.toInt = -(2 : Int) ^ 63
        · exact absurd ⟨spelled, _, _, _, address, .inl (lowest ▸ displaced)⟩ clean
        · exact ⟨spelled, address, .inr (.inl ⟨displaced, lowest⟩)⟩

end Memory

section Stray

variable {slot : Slot} {piece : Fragment} {operand : Operand String}

theorem not_mem_of_ended {chars : List Char} (ended : chars.dropWhile isIdent = []) :
    ')' ∉ chars :=
  not_mem_of_forall ')' (List.dropWhile_eq_nil_iff.mp ended) (by decide)

theorem readRegisterOperand_ended (read : readRegisterOperand slot piece = .ok operand) :
    ')' ∉ piece.chars.tail := by
  obtain ⟨⟨register, rest⟩, readName, read⟩ := exists_of_bind_ok read
  simp only at read
  split at read
  · cases read
  · rename_i ended
    apply not_mem_of_ended
    rw [← (readRegister_ok readName).2]
    simpa [Fragment.isEmpty] using ended

theorem readConstantOperand_ended (read : readConstantOperand slot piece = .ok operand) :
    ')' ∉ piece.chars.tail := by
  have outcome := readImmediate_outcome slot.size piece.chars
  unfold readConstantOperand at read
  split at read
  · cases read
  · split at read
    · rename_i taken
      rw [taken] at outcome
      cases outcome with
      | taken spells => exact not_mem_of_forall ')' spells.isNumberChar (by decide)
    · cases read

theorem readLabelOperand_ended (read : readLabelOperand slot piece = .ok operand) :
    ')' ∉ piece.chars := by
  unfold readLabelOperand at read
  simp only at read
  split at read
  · cases read
  · rename_i ended
    apply not_mem_of_ended
    simpa [Fragment.isEmpty, Fragment.dropWhile] using ended

/-- Without an opening parenthesis a closing one is out of place in every form of operand. -/
theorem readOperand_ended (noOpening : '(' ∉ piece.chars)
    (read : readOperand slot piece = .ok operand) : ')' ∉ piece.chars := by
  have front {head : Char} (first : piece.head? = some head) (other : ')' ≠ head)
      (behind : ')' ∉ piece.chars.tail) : ')' ∉ piece.chars := by
    rw [← List.cons_head?_tail first, List.mem_cons, not_or]
    exact ⟨other, behind⟩
  rw [readOperand, if_neg noOpening] at read
  split at read
  · rename_i percent
    exact front percent (by decide) (readRegisterOperand_ended read)
  · rename_i dollar
    exact front dollar (by decide) (readConstantOperand_ended read)
  · split at read
    · exact readLabelOperand_ended read
    · cases read
  · cases read

end Stray

theorem SpellsReference.opens {denotes : List Char → Int → Prop} {chars : List Char}
    {reference : MemoryRef} (spells : SpellsReference denotes chars reference) : '(' ∈ chars := by
  obtain ⟨_, ⟨front, inner, back, rfl, _⟩, _⟩ := spells
  simp

theorem readOperand_eq_ok_iff {slot : Slot} {piece : Fragment} (admitted : slot.memory = true)
    (parenthesis : '(' ∈ piece.chars ∨ ')' ∈ piece.chars) (operand : Operand String) :
    readOperand slot piece = .ok operand ↔
      ∃ reference, operand = .memory reference ∧
        SpellsReference TakenDisplacement piece.chars reference := by
  by_cases opens : '(' ∈ piece.chars
  · rw [readOperand_eq_readMemoryOperand opens]
    exact readMemoryOperand_eq_ok_iff admitted opens
  · have closes := parenthesis.resolve_left opens
    constructor
    · intro read
      exact absurd closes (readOperand_ended opens read)
    · intro spells
      obtain ⟨reference, _, spells⟩ := spells
      exact absurd spells.opens opens

section Addresses

variable {slot : Slot} {piece : Fragment}

theorem readOperand_spells_iff (admitted : slot.memory = true)
    (parenthesis : '(' ∈ piece.chars ∨ ')' ∈ piece.chars) :
    (∀ operand, readOperand slot piece = .ok operand ↔
        ∃ reference, operand = .memory reference ∧
          SpellsReference SpellsDisplacement piece.chars reference) ↔
      ∀ reference, SpellsReference TakenDisplacement piece.chars reference ↔
        SpellsReference SpellsDisplacement piece.chars reference := by
  simp only [readOperand_eq_ok_iff admitted parenthesis]
  constructor
  · intro same reference
    simpa using same (.memory reference)
  · intro same operand
    simp only [same]

/-- A place for memory reads exactly the addresses of the grammar, with the parts that are written,
unless the displacement in front of the parentheses is the lowest one or has two signs. The lowest one
is not read, and one with two signs is. -/
theorem readOperand_address (admitted : slot.memory = true)
    (parenthesis : '(' ∈ piece.chars ∨ ')' ∈ piece.chars) :
    (∀ operand, readOperand slot piece = .ok operand ↔
      ∃ reference, operand = .memory reference ∧
        SpellsReference TakenDisplacement piece.chars reference) ∧
    ((∀ operand, readOperand slot piece = .ok operand ↔
        ∃ reference, operand = .memory reference ∧
          SpellsReference SpellsDisplacement piece.chars reference) ↔
      ¬ ∃ spelled base index scale, SpellsAddress piece.chars spelled base index scale ∧
        MisreadDisplacement spelled) := by
  constructor
  · exact readOperand_eq_ok_iff admitted parenthesis
  · exact (readOperand_spells_iff admitted parenthesis).trans spellsReference_taken_iff

/-- All parts are there, with blanks around them. -/
theorem readOperand_address_scaled :
    let piece : Fragment := ⟨5, "-0x10 ( %RBP,%rcx, 4 )".toList⟩
    readOperand (.location .quad) piece =
        .ok (.memory ⟨-16, Gpr.rbp.full, some Gpr.rcx.full, 4⟩) ∧
      ∀ operand, readOperand (.location .quad) piece = .ok operand ↔
        ∃ reference, operand = .memory reference ∧
          SpellsReference SpellsDisplacement piece.chars reference := by
  intro piece
  have blank : ∀ char ∈ [' '], isBlank char = true := by simp [isBlank]
  have sixteen : WritesNumber 16 ['1', '0'] 16 :=
    (writesNumber_iff (by decide)).mpr ⟨by decide, by decide⟩
  have displaced : SpellsDisplacement ['-', '0', 'x', '1', '0'] (-16) :=
    ⟨⟨.hex 2, .hex true (.inl rfl) sixteen⟩, by decide, by decide⟩
  have base : SpellsQuad ['%', 'R', 'B', 'P'] Gpr.rbp.full :=
    ⟨.rbp, rfl, ['R', 'B', 'P'], rfl, by decide⟩
  have index : SpellsQuad ['%', 'r', 'c', 'x'] Gpr.rcx.full :=
    ⟨.rcx, rfl, ['r', 'c', 'x'], rfl, by decide⟩
  have parts : SpellsParts (" %RBP,%rcx, 4 ".toList) Gpr.rbp.full (some Gpr.rcx.full) 4 :=
    .scale ⟨[' '], _, [], rfl, base, blank, by simp⟩ (.of_spells index)
      ⟨[' '], ['4'], [' '], rfl, ⟨by decide, by decide⟩, blank, blank⟩
  have address : SpellsAddress piece.chars ['-', '0', 'x', '1', '0'] Gpr.rbp.full
      (some Gpr.rcx.full) 4 :=
    ⟨_, _, [], by decide, ⟨[], _, [' '], rfl, rfl, by simp, blank⟩, parts, by simp⟩
  have admitted : (Slot.location .quad).memory = true := rfl
  have same := (readOperand_address admitted (.inl (by decide))).2.mpr
    (address.not_misread displaced (by decide))
  exact ⟨(same _).mpr ⟨_, rfl, _, address, .inr displaced⟩, same⟩

/-- A displacement with two signs is read although the grammar does not have it. -/
theorem not_readOperand_address :
    ¬ ∀ (slot : Slot) (piece : Fragment), slot.memory = true →
      '(' ∈ piece.chars ∨ ')' ∈ piece.chars → ∀ operand,
        (readOperand slot piece = .ok operand ↔
          ∃ reference, operand = .memory reference ∧
            SpellsReference SpellsDisplacement piece.chars reference) := by
  intro all
  let piece : Fragment := ⟨0, "0x-8(%rax)".toList⟩
  have parenthesis : '(' ∈ piece.chars ∨ ')' ∈ piece.chars := by decide
  have same := all (.location .quad) piece rfl parenthesis
  rw [readOperand_spells_iff rfl parenthesis] at same
  have eight : WritesNumber 16 ['8'] 8 :=
    (writesNumber_iff (by decide)).mpr ⟨by decide, by decide⟩
  have resigned : ResignedDisplacement ['0', 'x', '-', '8'] (-8) :=
    .hex false true (.inl rfl) eight (by decide) (by decide)
  have base : SpellsQuad ['%', 'r', 'a', 'x'] Gpr.rax.full :=
    ⟨.rax, rfl, ['r', 'a', 'x'], rfl, by decide⟩
  have address : SpellsAddress piece.chars ['0', 'x', '-', '8'] Gpr.rax.full none 1 :=
    ⟨['0', 'x', '-', '8'], ['%', 'r', 'a', 'x'], [], by decide, .of_spells rfl,
      .base (.of_spells base), by simp⟩
  exact not_same_of_misread address (.inr ⟨-8, resigned⟩) same

end Addresses

end AsmLab.Source
