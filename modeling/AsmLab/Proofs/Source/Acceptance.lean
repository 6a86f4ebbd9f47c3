import AsmLab.Proofs.Source.MnemonicText
import AsmLab.Proofs.Source.NumeralText
import AsmLab.Proofs.Source.WellFormed

/-! The reader accepts well-formed statements only. Each reader of a part has one lemma that says
what it accepts. -/
namespace AsmLab.Source

theorem exists_of_bind_ok {Failure First Second : Type} {first : Except Failure First}
    {next : First → Except Failure Second} {result : Second}
    (run : first >>= next = .ok result) :
    ∃ value, first = .ok value ∧ next value = .ok result := by
  cases first with
  | error failure => cases run
  | ok value => exact ⟨value, rfl, run⟩

theorem readImmediate_fits {bits : Nat} {text : List Char} {constant : Immediate}
    (read : readImmediate bits text = .ok constant) : constant.Fits bits := by
  unfold readImmediate at read
  split at read
  rename_i negative magnitude _
  split at read
  · rename_i digits _
    split at read
    · cases read
    · rename_i numeral
      split at read
      · cases read
      · rename_i narrow
        obtain rfl := Except.ok.inj read
        have nonempty : digits ≠ [] := by
          intro empty
          simp [empty, Numeral.isNumeral] at numeral
        refine ⟨List.length_pos_iff.mpr nonempty, by omega, ?_⟩
        rw [Numeral.natAbs_withSign]
        exact Numeral.value_lt (by decide) digits
  · split at read
    · cases read
    · simp only at read
      split at read
      · cases read
      · split at read
        · cases read
        · rename_i narrow
          obtain rfl := Except.ok.inj read
          exact Nat.not_lt.mp narrow

theorem readImmediate_kind {bits : Nat} {text : List Char} {cause : ErrorCause}
    (failed : readImmediate bits text = .error cause) :
    cause.kind = .invalidConstant ∨ cause.kind = .constantTooLarge := by
  unfold readImmediate at failed
  simp only at failed
  split at failed
  · split at failed
    · cases failed
      exact .inl rfl
    · split at failed <;> cases failed
      exact .inr rfl
  · split at failed
    · cases failed
      exact .inl rfl
    · split at failed
      · cases failed
        exact .inr rfl
      · split at failed <;> cases failed
        exact .inr rfl

theorem readRegisterOperand_admits {slot : Slot} {piece : Fragment} {operand : Operand String}
    (read : readRegisterOperand slot piece = .ok operand) : slot.Admits operand := by
  obtain ⟨⟨register, rest⟩, _, read⟩ := exists_of_bind_ok read
  simp only at read
  split at read
  · cases read
  · split at read
    · cases read
    · rename_i admitted
      split at read
      · cases read
      · rename_i sameSize
        obtain rfl := Except.ok.inj read
        exact ⟨by simpa using admitted, not_not.mp sameSize⟩

theorem readConstantOperand_admits {slot : Slot} {piece : Fragment} {operand : Operand String}
    (read : readConstantOperand slot piece = .ok operand) : slot.Admits operand := by
  unfold readConstantOperand at read
  split at read
  · cases read
  · rename_i admitted
    split at read
    · rename_i constant spelled
      obtain rfl := Except.ok.inj read
      exact ⟨by simpa using admitted, readImmediate_fits spelled⟩
    · cases read

theorem isName_of_dropWhile_eq_nil {chars : List Char} {head : Char} (first : chars.head? = some head)
    (start : isIdentStart head = true) (rest : chars.dropWhile isIdent = []) :
    IsName chars := by
  refine ⟨by simpa [first] using start, ?_⟩
  intro char member
  exact List.dropWhile_eq_nil_iff.mp rest char member

theorem readLabelOperand_admits {slot : Slot} {piece : Fragment} {operand : Operand String}
    {head : Char} (first : piece.head? = some head) (start : isIdentStart head = true)
    (read : readLabelOperand slot piece = .ok operand) : slot.Admits operand := by
  unfold readLabelOperand at read
  simp only at read
  split at read
  · cases read
  · rename_i ended
    have rest : piece.chars.dropWhile isIdent = [] := by
      simpa [Fragment.isEmpty, Fragment.dropWhile] using ended
    split at read
    · rename_i admitted
      obtain rfl := Except.ok.inj read
      refine ⟨admitted, ?_⟩
      have whole : piece.chars.takeWhile isIdent = piece.chars := by
        have parts := List.takeWhile_append_dropWhile (p := isIdent) (l := piece.chars)
        rwa [rest, List.append_nil] at parts
      simp only [Fragment.text, Fragment.takeWhile, String.toList_ofList, whole]
      exact isName_of_dropWhile_eq_nil first start rest
    · split at read <;> cases read

theorem readAddressRegister_quad {role : AddressRole} {context part : Fragment}
    {register : Register} (read : readAddressRegister role context part = .ok register) :
    register.size = .quad := by
  unfold readAddressRegister at read
  split at read
  · cases read
  · obtain ⟨⟨found, rest⟩, _, read⟩ := exists_of_bind_ok read
    simp only at read
    split at read
    · cases read
    · split at read
      · cases read
      · rename_i quad
        obtain rfl := Except.ok.inj read
        exact not_not.mp quad

theorem readScale_mem {part : Fragment} {scale : Nat} (read : readScale part = .ok scale) :
    scale ∈ [1, 2, 4, 8] := by
  unfold readScale at read
  split at read <;> cases read <;> decide

theorem readAddress_wellFormed {piece outer : Fragment} {displacement : BitVec 64}
    {parts : List Fragment} {reference : MemoryRef}
    (read : readAddress piece outer displacement parts = .ok reference) :
    reference.WellFormed := by
  unfold readAddress at read
  split at read
  · cases read
  · obtain ⟨base, readBase, read⟩ := exists_of_bind_ok read
    obtain rfl := Except.ok.inj read
    exact ⟨readAddressRegister_quad readBase, by simp, by simp, fun _ => rfl⟩
  · obtain ⟨base, readBase, read⟩ := exists_of_bind_ok read
    obtain ⟨index, readIndex, read⟩ := exists_of_bind_ok read
    obtain rfl := Except.ok.inj read
    have quad := readAddressRegister_quad readIndex
    exact ⟨readAddressRegister_quad readBase, by simpa using quad, by simp, by simp⟩
  · obtain ⟨base, readBase, read⟩ := exists_of_bind_ok read
    obtain ⟨index, readIndex, read⟩ := exists_of_bind_ok read
    obtain ⟨scale, scaled, read⟩ := exists_of_bind_ok read
    obtain rfl := Except.ok.inj read
    have quad := readAddressRegister_quad readIndex
    exact ⟨readAddressRegister_quad readBase, by simpa using quad, readScale_mem scaled, by simp⟩
  · cases read

theorem readMemoryOperand_admits {slot : Slot} {piece : Fragment} {operand : Operand String}
    (read : readMemoryOperand slot piece = .ok operand) : slot.Admits operand := by
  unfold readMemoryOperand at read
  split at read
  · cases read
  · rename_i admitted
    have memory : slot.memory = true := by simpa using admitted
    split at read
    · cases read
    · rename_i front trailing _
      simp only at read
      split at read
      · cases read
      · split at read
        · cases read
        · split at read
          · obtain ⟨reference, readReference, read⟩ := exists_of_bind_ok read
            obtain rfl := Except.ok.inj read
            exact ⟨memory, readAddress_wellFormed readReference⟩
          · split at read
            · cases read
            · obtain ⟨reference, readReference, read⟩ := exists_of_bind_ok read
              obtain rfl := Except.ok.inj read
              exact ⟨memory, readAddress_wellFormed readReference⟩

theorem readOperand_admits {slot : Slot} {piece : Fragment} {operand : Operand String}
    (read : readOperand slot piece = .ok operand) : slot.Admits operand := by
  unfold readOperand at read
  split at read
  · exact readMemoryOperand_admits read
  · split at read
    · exact readRegisterOperand_admits read
    · exact readConstantOperand_admits read
    · rename_i head _ _ first
      split at read
      · rename_i start
        exact readLabelOperand_admits first start read
      · cases read
    · cases read

theorem readOperands_match {mnemonic : Mnemonic} {word : Fragment} {pieces : List Fragment}
    {operands : Operands String} (read : readOperands mnemonic word pieces = .ok operands) :
    operands.Match mnemonic.slots := by
  unfold readOperands at read
  split at read
  · rename_i slots
    obtain rfl := Except.ok.inj read
    rw [slots]
    trivial
  · rename_i slot piece slots
    obtain ⟨operand, readPiece, read⟩ := exists_of_bind_ok read
    obtain rfl := Except.ok.inj read
    rw [slots]
    exact readOperand_admits readPiece
  · rename_i sourceSlot slot sourcePiece piece slots
    split at read
    · cases read
    · obtain ⟨source, readSource, read⟩ := exists_of_bind_ok read
      obtain ⟨destination, readDestination, read⟩ := exists_of_bind_ok read
      split at read
      · cases read
      · rename_i oneMemory
        obtain rfl := Except.ok.inj read
        rw [slots]
        exact ⟨readOperand_admits readSource, readOperand_admits readDestination,
          by simpa using oneMemory⟩
  · cases read

theorem decodeMnemonic_listed {word : Fragment} {pieces : List Fragment} {mnemonic : Mnemonic}
    (decoded : decodeMnemonic word pieces = .ok mnemonic) : mnemonic ∈ Mnemonic.catalog := by
  unfold decodeMnemonic at decoded
  simp only at decoded
  split at decoded
  · rename_i found accepted
    obtain rfl := Except.ok.inj decoded
    exact (Mnemonic.decode_ok accepted).1
  · cases decoded

section Statements

variable {word rest body : Fragment} {statement : Statement String} {comment : Option String}
  {keyword : Span}

theorem readInstruction_wellFormed (read : readInstruction word rest = .ok statement) :
    Draft.WellFormed ⟨statement, comment, keyword⟩ := by
  obtain ⟨pieces, _, read⟩ := exists_of_bind_ok read
  obtain ⟨mnemonic, decoded, read⟩ := exists_of_bind_ok read
  obtain ⟨operands, readPieces, read⟩ := exists_of_bind_ok read
  obtain rfl := Except.ok.inj read
  exact ⟨⟨decodeMnemonic_listed decoded, readOperands_match readPieces⟩, trivial⟩

theorem readLabelDefinition_wellFormed (name : IsName word.chars)
    (read : readLabelDefinition word rest = .ok statement) :
    Draft.WellFormed ⟨statement, comment, keyword⟩ := by
  unfold readLabelDefinition at read
  split at read
  · cases read
  · split at read
    · cases read
    · rename_i unknown
      obtain rfl := Except.ok.inj read
      exact ⟨⟨by rwa [Fragment.text, String.toList_ofList], unknown⟩, trivial⟩

theorem isName_takeWhile (start : body.head?.any isIdentStart = true) :
    IsName (body.takeWhile isIdent).chars := by
  constructor
  · cases shape : body.chars with
    | nil => simp [Fragment.head?, shape] at start
    | cons head tail =>
      have startsName : isIdentStart head = true := by simpa [Fragment.head?, shape] using start
      simp [Fragment.takeWhile, shape, isIdent_of_isIdentStart startsName, startsName]
  · intro char member
    exact List.mem_takeWhile_imp member

theorem readStatement_wellFormed (read : readStatement body = .ok statement) :
    Draft.WellFormed ⟨statement, comment, keyword⟩ := by
  unfold readStatement at read
  split at read
  · cases read
  · rename_i start
    simp only at read
    split at read
    · exact readLabelDefinition_wellFormed (isName_takeWhile (by simpa using start)) read
    · split at read
      · cases read
      · exact readInstruction_wellFormed read

end Statements

/-- What a text says on its own is well formed. -/
theorem readDraft_wellFormed {text : String} {draft : Draft} (read : readDraft text = .ok draft) :
    draft.WellFormed := by
  unfold readDraft at read
  simp only at read
  split at read
  · obtain rfl := Except.ok.inj read
    split
    · exact ⟨trivial, rfl⟩
    · exact ⟨trivial, rfl⟩
  · obtain ⟨statement, readBody, read⟩ := exists_of_bind_ok read
    obtain rfl := Except.ok.inj read
    exact readStatement_wellFormed readBody

end AsmLab.Source
