import AsmLab.Isa.Mnemonic
import AsmLab.Proofs.Source.FragmentCutting

/-! Decoding a mnemonic against its text: what is decoded is in the catalog and has the decoded word
for its text, and every mnemonic of the catalog is decoded from its text. -/
namespace AsmLab.Mnemonic

theorem name_of_ofName? {name : String} {condition : Condition}
    (found : Condition.ofName? name = some condition) : condition.name = name := by
  simpa using List.find?_some found

theorem suffix_of_ofSuffix? {char : Char} {size : Size} (found : Size.ofSuffix? char = some size) :
    size.suffix = char := by
  unfold Size.ofSuffix? at found
  split at found <;> cases found <;> rfl

theorem eq_append_of_afterStem? {stem : String} {word rest : List Char}
    (found : afterStem? stem word = some rest) : word = stem.toList ++ rest := by
  unfold afterStem? at found
  split at found
  · rename_i starts
    obtain ⟨tail, same⟩ := starts
    rw [← same, List.drop_left] at found
    rw [← same, Option.some.inj found]
  · cases found

theorem eq_append_of_matchStem? {opcodes : List Opcode} {word rest : List Char} {opcode : Opcode}
    (found : matchStem? opcodes word = some (opcode, rest)) :
    opcode ∈ opcodes ∧ word = opcode.name.toList ++ rest := by
  obtain ⟨candidate, member, stem⟩ := List.exists_of_findSome?_eq_some found
  obtain ⟨tail, after, same⟩ := Option.map_eq_some_iff.mp stem
  cases same
  exact ⟨member, eq_append_of_afterStem? after⟩

theorem decodeCondition_ok {stem : String} {opcode : Condition → Opcode} {letters : List Char}
    {mnemonic : Mnemonic} (decoded : decodeCondition stem opcode letters = .ok mnemonic) :
    ∃ condition, mnemonic = uniform (opcode condition) .byte ∧ letters = condition.name.toList := by
  unfold decodeCondition at decoded
  split at decoded
  · rename_i condition found
    have same := name_of_ofName? found
    exact ⟨condition, (Except.ok.inj decoded).symm, by rw [same, String.toList_ofList]⟩
  · cases decoded

theorem decodeWidening_ok {opcode : Opcode} {letters : List Char} {mnemonic : Mnemonic}
    (decoded : decodeWidening opcode letters = .ok mnemonic) :
    ∃ source size, source < size ∧ mnemonic = ⟨opcode, size, source⟩ ∧
      letters = [source.suffix, size.suffix] := by
  unfold decodeWidening at decoded
  split at decoded
  · rename_i source size read
    split at decoded
    · rename_i narrower
      obtain ⟨first, _, rfl, readFirst, read⟩ := List.map_eq_cons_iff.mp read
      obtain ⟨second, _, rfl, readSecond, read⟩ := List.map_eq_cons_iff.mp read
      obtain rfl := List.map_eq_nil_iff.mp read
      refine ⟨source, size, narrower, (Except.ok.inj decoded).symm, ?_⟩
      rw [suffix_of_ofSuffix? readFirst, suffix_of_ofSuffix? readSecond]
    · cases decoded
  · cases decoded

theorem decodeSized_ok {opcode : Opcode} {letters : List Char} {mnemonic : Mnemonic}
    (decoded : decodeSized opcode letters = .ok mnemonic) :
    ∃ size, mnemonic = uniform opcode size ∧ letters = [size.suffix] := by
  unfold decodeSized at decoded
  split at decoded
  · rename_i size read
    obtain ⟨first, _, rfl, readFirst, read⟩ := List.map_eq_cons_iff.mp read
    obtain rfl := List.map_eq_nil_iff.mp read
    exact ⟨size, (Except.ok.inj decoded).symm, by rw [suffix_of_ofSuffix? readFirst]⟩
  · cases decoded

theorem mem_sizes (size : Size) : size ∈ Size.all := by
  cases size <;> decide

theorem mem_conditions (condition : Condition) : condition ∈ Condition.all := by
  cases condition <;> decide

/-- The suffix of a mnemonic of one width follows its stem. -/
theorem text_uniform {opcode : Opcode} (suffixed : opcode ∈ Opcode.sized ++ Opcode.quadOnly)
    (size : Size) :
    (uniform opcode size).text = opcode.name ++ String.ofList [size.suffix] := by
  have plain : ∀ opcode ∈ Opcode.sized ++ Opcode.quadOnly,
      opcode.isUnsized = false ∧ opcode ∉ Opcode.widening := by decide
  obtain ⟨sized, single⟩ := plain opcode suffixed
  simp [text, uniform, sized, single]

/-- A decoded mnemonic is in the catalog, and its text is the word it was decoded from. -/
theorem decode_ok {word : List Char} {mnemonic : Mnemonic} (decoded : decode word = .ok mnemonic) :
    mnemonic ∈ catalog ∧ mnemonic.text.toList = word := by
  simp only [catalog, List.mem_append, List.mem_flatMap, List.mem_map, List.mem_singleton]
  unfold decode at decoded
  split at decoded
  · rename_i jump
    obtain rfl := Except.ok.inj decoded
    exact ⟨.inr rfl, jump.symm⟩
  · split at decoded
    · rename_i letters after
      obtain ⟨condition, rfl, rfl⟩ := decodeCondition_ok decoded
      rw [eq_append_of_afterStem? after]
      exact ⟨.inl (.inr ⟨condition, mem_conditions condition, by simp⟩),
        by simp [text, uniform, Opcode.isUnsized, Opcode.name]⟩
    · split at decoded
      · rename_i letters after
        obtain ⟨condition, rfl, rfl⟩ := decodeCondition_ok decoded
        rw [eq_append_of_afterStem? after]
        exact ⟨.inl (.inr ⟨condition, mem_conditions condition, by simp⟩),
          by simp [text, uniform, Opcode.isUnsized, Opcode.name]⟩
      · split at decoded
        · rename_i opcode letters found
          obtain ⟨source, size, narrower, rfl, rfl⟩ := decodeWidening_ok decoded
          obtain ⟨member, same⟩ := eq_append_of_matchStem? found
          have sized : ∀ opcode ∈ Opcode.widening, opcode.isUnsized = false := by decide
          refine ⟨.inl (.inl (.inr ⟨opcode, member, source, mem_sizes source, size, ?_, rfl⟩)), ?_⟩
          · exact List.mem_filter.mpr ⟨mem_sizes size, by simpa using narrower⟩
          · simp [text, sized opcode member, member, same]
        · split at decoded
          · rename_i opcode letters found
            obtain ⟨size, rfl, rfl⟩ := decodeSized_ok decoded
            obtain ⟨member, same⟩ := eq_append_of_matchStem? found
            refine ⟨.inl (.inl (.inl (.inl ⟨opcode, member, size, mem_sizes size, rfl⟩))), ?_⟩
            rw [text_uniform (List.mem_append_left _ member), same]
            simp
          · split at decoded
            · rename_i opcode letters found
              split at decoded
              · rename_i quad
                obtain rfl := Except.ok.inj decoded
                obtain ⟨member, same⟩ := eq_append_of_matchStem? found
                refine ⟨.inl (.inl (.inl (.inr ⟨opcode, member, rfl⟩))), ?_⟩
                rw [text_uniform (List.mem_append_right _ member), same, quad]
                simp [Size.suffix]
              · cases decoded
            · cases decoded

theorem decode_text {mnemonic : Mnemonic} (listed : mnemonic ∈ catalog) :
    decode mnemonic.text.toList = .ok mnemonic := by
  have all : ∀ mnemonic ∈ catalog,
      (decode mnemonic.text.toList).toOption = some mnemonic := by decide +kernel
  have read := all mnemonic listed
  cases result : decode mnemonic.text.toList with
  | error _ => simp [result, Except.toOption] at read
  | ok decoded => simpa [result, Except.toOption] using read

theorem text_isName {mnemonic : Mnemonic} (listed : mnemonic ∈ catalog) :
    Source.IsName mnemonic.text.toList := by
  have all : ∀ mnemonic ∈ catalog, mnemonic.text.toList.head?.any Source.isIdentStart = true ∧
      mnemonic.text.toList.all Source.isIdent = true := by decide +kernel
  obtain ⟨start, rest⟩ := all mnemonic listed
  exact ⟨start, List.all_eq_true.mp rest⟩

theorem text_lower {mnemonic : Mnemonic} (listed : mnemonic ∈ catalog) :
    mnemonic.text.toList.map Char.toLower = mnemonic.text.toList := by
  have all : ∀ mnemonic ∈ catalog,
      mnemonic.text.toList.map Char.toLower = mnemonic.text.toList := by decide +kernel
  exact all mnemonic listed

end AsmLab.Mnemonic
