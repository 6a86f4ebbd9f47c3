import AsmLab.Proofs.Source.Acceptance
import AsmLab.Proofs.Source.FragmentParts
import AsmLab.Proofs.Source.OperandReading

/-! The language between the parentheses of an address: the name of a base, of an index behind a comma
and the scale of the index behind another, with blanks around each of them. -/
namespace AsmLab.Source

theorem isIdent_of_toLower {char : Char} (ident : isIdent char.toLower = true) :
    isIdent char = true := by
  by_cases upper : char.isUpper = true
  · simp [isIdent, Char.isAlphanum, Char.isAlpha, upper]
  · have same : char.toLower = char := dif_neg (by simpa [Char.isUpper] using upper)
    rwa [same] at ident

/-- A percent sign and the name of a 64-bit register, in letters of either case. -/
def SpellsQuad (chars : List Char) (register : Register) : Prop :=
  ∃ parent : Gpr, register = parent.full ∧
    ∃ name, chars = '%' :: name ∧ name.map Char.toLower = parent.name.toList

theorem ofName?_of_map_toLower {name : List Char} {parent : Gpr}
    (spelled : name.map Char.toLower = parent.name.toList) :
    Register.ofName? (String.ofList name) = some parent.full := by
  have lower : ∀ parent ∈ Gpr.all, parent.name.toList.map Char.toLower = parent.name.toList := by
    decide +kernel
  have listed : parent ∈ Gpr.all := by cases parent <;> decide
  have same : (String.ofList name).map Char.toLower = parent.full.name.map Char.toLower := by
    apply String.toList_inj.mp
    rw [String.toList_map, String.toList_map, String.toList_ofList, spelled]
    exact (lower parent listed).symm
  rw [← Register.ofName?_name parent.full, Register.ofName?, same]
  rfl

theorem map_toLower_of_ofName? {name : List Char} {register : Register}
    (found : Register.ofName? (String.ofList name) = some register) :
    name.map Char.toLower = register.name.toList := by
  have same := List.find?_some found
  rw [beq_iff_eq] at same
  rw [same, String.toList_map, String.toList_ofList]

theorem isIdent_of_map_toLower {name : List Char} {parent : Gpr}
    (spelled : name.map Char.toLower = parent.name.toList) :
    ∀ char ∈ name, isIdent char = true := by
  intro char member
  apply isIdent_of_toLower
  have inName : char.toLower ∈ parent.full.name.toList := by
    rw [← show _ = parent.full.name.toList from spelled]
    exact List.mem_map_of_mem member
  exact (Register.name_isName parent.full).2 _ inName

theorem SpellsQuad.isPlain {chars : List Char} {register : Register}
    (spelled : SpellsQuad chars register) : ∀ char ∈ chars, isPlain char = true := by
  obtain ⟨parent, rfl, name, rfl, lower⟩ := spelled
  rw [List.forall_mem_cons]
  refine ⟨by decide, ?_⟩
  intro char member
  exact isPlain_of_isIdent (isIdent_of_map_toLower lower char member)

variable {role : AddressRole} {context part : Fragment} {register : Register}

theorem readAddressRegister_of_spells (spelled : SpellsQuad part.chars register) :
    readAddressRegister role context part = .ok register := by
  obtain ⟨parent, rfl, name, whole, lower⟩ := spelled
  obtain ⟨start, chars⟩ := part
  obtain rfl : chars = '%' :: name := whole
  have ident := isIdent_of_map_toLower lower
  have nonempty : name ≠ [] := by
    rintro rfl
    exact (Register.name_isName parent.full).ne_nil lower.symm
  have taken : Fragment.takeWhile ⟨start + 1, name⟩ isIdent = ⟨start + 1, name⟩ := by
    simpa using Fragment.takeWhile_append (start + 1) [] ident (by simp)
  have rest : Fragment.dropWhile ⟨start + 1, name⟩ isIdent = ⟨start + 1 + name.length, []⟩ := by
    simpa using Fragment.dropWhile_append (start + 1) [] ident (by simp)
  have visible : name.isEmpty = false := by simpa using nonempty
  have read : readRegister ⟨start, '%' :: name⟩ =
      .ok (parent.full, ⟨start + 1 + name.length, []⟩) := by
    simp only [readRegister, Fragment.drop, List.drop_succ_cons, List.drop_zero, taken, rest,
      Fragment.isEmpty, visible, Fragment.text, ofName?_of_map_toLower lower, Bool.false_eq_true,
      ↓reduceIte]
  have marked : Fragment.head? ⟨start, '%' :: name⟩ = some '%' := rfl
  rw [readAddressRegister, if_neg (by simp [marked]), read]
  rfl

/-- A register is read off the beginning of a fragment by the longest name there. -/
theorem readRegister_ok {rest : Fragment} (read : readRegister part = .ok (register, rest)) :
    Register.ofName? (String.ofList (part.chars.tail.takeWhile isIdent)) = some register ∧
      rest.chars = part.chars.tail.dropWhile isIdent := by
  unfold readRegister at read
  simp only at read
  split at read
  · cases read
  · split at read
    · rename_i found
      obtain ⟨rfl, rfl⟩ := Prod.mk.inj (Except.ok.inj read)
      rw [← List.drop_one]
      exact ⟨found, rfl⟩
    · cases read

theorem eq_full_of_quad (quad : register.size = .quad) : ∃ parent : Gpr, register = parent.full := by
  cases register with
  | low parent size =>
    obtain rfl : size = .quad := quad
    exact ⟨parent, rfl⟩
  | high byte => cases quad

theorem spells_of_readAddressRegister
    (read : readAddressRegister role context part = .ok register) :
    SpellsQuad part.chars register := by
  obtain ⟨parent, rfl⟩ := eq_full_of_quad (readAddressRegister_quad read)
  unfold readAddressRegister at read
  split at read
  · cases read
  · rename_i marked
    obtain ⟨⟨found, rest⟩, readName, read⟩ := exists_of_bind_ok read
    simp only at read
    split at read
    · cases read
    · rename_i ended
      split at read
      · cases read
      · obtain rfl := Except.ok.inj read
        obtain ⟨known, left⟩ := readRegister_ok readName
        have nothing : part.chars.tail.dropWhile isIdent = [] := by
          simpa [Fragment.isEmpty, left] using ended
        have whole : part.chars.tail.takeWhile isIdent = part.chars.tail := by
          rw [List.takeWhile_eq_self_iff]
          exact List.dropWhile_eq_nil_iff.mp nothing
        rw [whole] at known
        have percent : part.chars = '%' :: part.chars.tail :=
          (List.cons_head?_tail (not_not.mp marked)).symm
        exact ⟨parent, rfl, part.chars.tail, percent, map_toLower_of_ofName? known⟩

theorem readAddressRegister_eq_ok_iff :
    readAddressRegister role context part = .ok register ↔ SpellsQuad part.chars register :=
  ⟨spells_of_readAddressRegister, readAddressRegister_of_spells⟩

/-- A scale, as a number without leading zeros. -/
def SpellsScale (chars : List Char) (scale : Nat) : Prop :=
  scale ∈ [1, 2, 4, 8] ∧ chars = Nat.toDigits 10 scale

theorem readScale_eq_ok_iff {scale : Nat} :
    readScale part = .ok scale ↔ SpellsScale part.chars scale := by
  constructor
  · intro read
    have listed := readScale_mem read
    refine ⟨listed, ?_⟩
    unfold readScale at read
    split at read <;> cases read <;> assumption
  · intro spelled
    obtain ⟨listed, whole⟩ := spelled
    have text : part = ⟨part.start, (Numeral.decimal scale).toList⟩ := by
      simp [Numeral.decimal, ← whole]
    rw [text]
    exact readScale_decimal listed

theorem SpellsScale.isPlain {chars : List Char} {scale : Nat} (spelled : SpellsScale chars scale) :
    ∀ char ∈ chars, isPlain char = true := by
  rw [spelled.2]
  exact plain_decimal scale

/-- A part with nothing but blanks around it. -/
def Padded (spells : List Char → Prop) (chars : List Char) : Prop :=
  ∃ before part after, chars = before ++ part ++ after ∧ spells part ∧
    (∀ char ∈ before, isBlank char = true) ∧ ∀ char ∈ after, isBlank char = true

theorem Padded.of_spells {spells : List Char → Prop} {part : List Char} (spelled : spells part) :
    Padded spells part :=
  ⟨[], part, [], by simp, spelled, by simp, by simp⟩

theorem chars_trim {before part after : List Char} (start : Nat) (trimmed : Trimmed part)
    (blankBefore : ∀ char ∈ before, isBlank char = true)
    (blankAfter : ∀ char ∈ after, isBlank char = true) :
    (Fragment.trim ⟨start, before ++ part ++ after⟩).chars = part := by
  cases part with
  | nil =>
    have nothing : (before ++ [] ++ after).dropWhile isBlank = [] := by
      rw [List.dropWhile_eq_nil_iff, List.append_nil, List.forall_mem_append]
      exact ⟨blankBefore, blankAfter⟩
    simp only [Fragment.trim, Fragment.trimEnd, Fragment.dropWhile, nothing]
    rfl
  | cons head tail =>
    have front : (before ++ (head :: tail ++ after)).dropWhile isBlank = head :: tail ++ after :=
      congrArg Fragment.chars (Fragment.dropWhile_append start (head :: tail ++ after) blankBefore
        trimmed.1)
    have back : (head :: tail ++ after).reverse.dropWhile isBlank = (head :: tail).reverse := by
      rw [List.reverse_append]
      apply congrArg Fragment.chars (Fragment.dropWhile_append start (head :: tail).reverse
        (fun char member => blankAfter char (List.mem_reverse.mp member)) _)
      rw [List.head?_reverse]
      exact trimmed.2
    simp only [Fragment.trim, Fragment.trimEnd, Fragment.dropWhile, List.append_assoc, front, back,
      List.reverse_reverse]

theorem isEmpty_trim_iff (start : Nat) (chars : List Char) :
    (Fragment.trim ⟨start, chars⟩).isEmpty = true ↔ ∀ char ∈ chars, isBlank char = true := by
  rw [Fragment.isEmpty_iff]
  constructor
  · intro empty
    obtain ⟨before, after, whole, blankBefore, blankAfter, _⟩ :=
      Fragment.exists_trim_eq start chars
    rw [whole, empty, List.append_nil, List.forall_mem_append]
    exact ⟨blankBefore, blankAfter⟩
  · intro blank
    have trimmed := chars_trim start trimmed_nil blank (List.forall_mem_nil (isBlank · = true))
    rwa [List.append_nil, List.append_nil] at trimmed

theorem padded_iff {spells : List Char → Prop} (start : Nat) {chars : List Char}
    (trimmed : ∀ part, spells part → Trimmed part) :
    Padded spells chars ↔ spells (Fragment.trim ⟨start, chars⟩).chars := by
  constructor
  · intro padded
    obtain ⟨before, part, after, rfl, spelled, blankBefore, blankAfter⟩ := padded
    rwa [chars_trim start (trimmed part spelled) blankBefore blankAfter]
  · intro spelled
    obtain ⟨before, after, whole, blankBefore, blankAfter, _⟩ :=
      Fragment.exists_trim_eq start chars
    exact ⟨before, _, after, whole, spelled, blankBefore, blankAfter⟩

theorem Padded.not_mem {spells : List Char → Prop} {chars : List Char} (padded : Padded spells chars)
    {char : Char} (visible : isBlank char = false) (absent : ∀ part, spells part → char ∉ part) :
    char ∉ chars := by
  obtain ⟨before, part, after, rfl, spelled, blankBefore, blankAfter⟩ := padded
  simp only [List.mem_append, not_or]
  exact ⟨⟨not_mem_of_forall char blankBefore visible, absent part spelled⟩,
    not_mem_of_forall char blankAfter visible⟩

/-- What stands between the parentheses: a base, and behind commas an index and its scale. -/
inductive SpellsParts : List Char → Register → Option Register → Nat → Prop where
  | base {chars : List Char} {base : Register} (spelled : Padded (SpellsQuad · base) chars) :
      SpellsParts chars base none 1
  | index {front chars : List Char} {base index : Register}
      (spelledBase : Padded (SpellsQuad · base) front)
      (spelled : Padded (SpellsQuad · index) chars) :
      SpellsParts (front ++ ',' :: chars) base (some index) 1
  | scale {front middle chars : List Char} {base index : Register} {scale : Nat}
      (spelledBase : Padded (SpellsQuad · base) front)
      (spelledIndex : Padded (SpellsQuad · index) middle)
      (spelled : Padded (SpellsScale · scale) chars) :
      SpellsParts (front ++ ',' :: (middle ++ ',' :: chars)) base (some index) scale

section Parts

variable {chars : List Char} {start : Nat} {role : AddressRole} {context : Fragment}

theorem readAddressRegister_trim_iff {register : Register} :
    readAddressRegister role context (Fragment.trim ⟨start, chars⟩) = .ok register ↔
      Padded (SpellsQuad · register) chars := by
  rw [readAddressRegister_eq_ok_iff, padded_iff start]
  exact fun part spelled => trimmed_of_plain spelled.isPlain

theorem readScale_trim_iff {scale : Nat} :
    readScale (Fragment.trim ⟨start, chars⟩) = .ok scale ↔ Padded (SpellsScale · scale) chars := by
  rw [readScale_eq_ok_iff, padded_iff start]
  exact fun part spelled => trimmed_of_plain spelled.isPlain

/-- No comma stands in a part of plain characters or around it. -/
theorem Padded.comma_not_mem {spells : List Char → Prop} (padded : Padded spells chars)
    (plain : ∀ part, spells part → ∀ char ∈ part, isPlain char = true) : ',' ∉ chars := by
  apply padded.not_mem (by decide)
  intro part spelled
  exact not_mem_of_forall ',' (plain part spelled) (by decide)

variable {piece outer : Fragment} {displacement : BitVec 64} {reference : MemoryRef}

theorem readAddress_of_spells
    (spelled : SpellsParts chars reference.base reference.index reference.scale) :
    readAddress piece outer reference.displacement
      ((Fragment.splitCommas ⟨start, chars⟩).map Fragment.trim) = .ok reference := by
  obtain ⟨displacement, base, index, scale⟩ := reference
  have noComma {chars : List Char} {register : Register}
      (padded : Padded (SpellsQuad · register) chars) : ',' ∉ chars :=
    padded.comma_not_mem fun _ spelled => spelled.isPlain
  cases spelled with
  | base spelled =>
    rw [Fragment.splitCommas_single (noComma spelled)]
    simp [readAddress, readAddressRegister_trim_iff.mpr spelled, bind, Except.bind, pure,
      Except.pure]
  | index spelledBase spelled =>
    rw [Fragment.splitCommas_append (noComma spelledBase),
      Fragment.splitCommas_single (noComma spelled)]
    simp [readAddress, readAddressRegister_trim_iff.mpr spelledBase,
      readAddressRegister_trim_iff.mpr spelled, bind, Except.bind, pure, Except.pure]
  | scale spelledBase spelledIndex spelled =>
    rw [Fragment.splitCommas_append (noComma spelledBase),
      Fragment.splitCommas_append (noComma spelledIndex),
      Fragment.splitCommas_single (spelled.comma_not_mem fun _ scaled => scaled.isPlain)]
    simp [readAddress, readAddressRegister_trim_iff.mpr spelledBase,
      readAddressRegister_trim_iff.mpr spelledIndex, readScale_trim_iff.mpr spelled, bind,
      Except.bind, pure, Except.pure]

theorem spells_of_readAddress
    (read : readAddress piece outer displacement
      ((Fragment.splitCommas ⟨start, chars⟩).map Fragment.trim) = .ok reference) :
    reference.displacement = displacement ∧
      SpellsParts chars reference.base reference.index reference.scale := by
  have separated := Fragment.separated_cutCommas (fun _ => 0) 0 start chars
  change Fragment.Separated start chars (Fragment.splitCommas ⟨start, chars⟩) at separated
  generalize Fragment.splitCommas ⟨start, chars⟩ = pieces at read separated
  cases separated with
  | last =>
    obtain ⟨base, readBase, read⟩ := exists_of_bind_ok read
    obtain rfl := Except.ok.inj read
    exact ⟨rfl, .base (readAddressRegister_trim_iff.mp readBase)⟩
  | comma front later =>
    cases later with
    | last =>
      obtain ⟨base, readBase, read⟩ := exists_of_bind_ok read
      obtain ⟨index, readIndex, read⟩ := exists_of_bind_ok read
      obtain rfl := Except.ok.inj read
      exact ⟨rfl, .index (readAddressRegister_trim_iff.mp readBase)
        (readAddressRegister_trim_iff.mp readIndex)⟩
    | comma middle later =>
      cases later with
      | last =>
        obtain ⟨base, readBase, read⟩ := exists_of_bind_ok read
        obtain ⟨index, readIndex, read⟩ := exists_of_bind_ok read
        obtain ⟨scale, scaled, read⟩ := exists_of_bind_ok read
        obtain rfl := Except.ok.inj read
        exact ⟨rfl, .scale (readAddressRegister_trim_iff.mp readBase)
          (readAddressRegister_trim_iff.mp readIndex) (readScale_trim_iff.mp scaled)⟩
      | comma third later => cases later <;> cases read

theorem readReference_iff {operand : Operand String} :
    (do return .memory (← readAddress piece outer displacement
      ((Fragment.splitCommas ⟨start, chars⟩).map Fragment.trim)) :
        Except ParseError (Operand String)) = .ok operand ↔
      ∃ reference, operand = .memory reference ∧
        SpellsParts chars reference.base reference.index reference.scale ∧
        reference.displacement = displacement := by
  constructor
  · intro read
    obtain ⟨reference, readReference, read⟩ := exists_of_bind_ok read
    obtain rfl := Except.ok.inj read
    obtain ⟨same, spelled⟩ := spells_of_readAddress readReference
    exact ⟨reference, rfl, spelled, same⟩
  · intro spelled
    obtain ⟨reference, rfl, spelled, rfl⟩ := spelled
    rw [readAddress_of_spells spelled]
    rfl

end Parts

end AsmLab.Source
