import AsmLab.Proofs.Settings.SavedDocument

/-! Saved settings are loaded as they were. The readers of words, names and line numbers undo what was
written, and a register or line is found again in whatever order the keys are sorted. -/
namespace AsmLab.Settings

open Toml (Node PairFormat)

section Runs

variable {Item Result State Key Entry Cause : Type}

theorem ok_bind (item : Item) (next : Item → Except Cause Result) :
    (Except.ok item >>= next) = next item :=
  rfl

/-- A reader of items that are written in some way reads all of them. -/
theorem mapM_map_ok {read : Entry → Except Cause Result} {spell : Item → Entry} {result : Item → Result}
    (reads : ∀ item, read (spell item) = .ok (result item)) (items : List Item) :
    (items.map spell).mapM read = .ok (items.map result) := by
  induction items with
  | nil => rfl
  | cons item items ih =>
    rw [List.map_cons, List.mapM_cons, reads, ih]
    rfl

section Goal

variable {step : State → Entry → Except Cause State} {entries : List Entry} {goal : State}
  (get : State → Key → Option Item) (spell : Key → Item → Entry)
  (apart : ∀ key item other another, spell key item = spell other another → key = other)
  (puts : ∀ state key item, get goal key = some item → ∃ next, step state (spell key item) = .ok next ∧
    get next key = some item ∧ ∀ other, other ≠ key → get next other = get state other)
include apart puts

/-- What a run that puts in entries of `goal` finds under a key: the item of `goal`, or, if the key was
not written, what was there before. -/
theorem foldlM_puts
    (sound : ∀ entry ∈ entries, ∃ key item, get goal key = some item ∧ spell key item = entry)
    (state : State) :
    ∃ result, entries.foldlM step state = .ok result ∧ ∀ key, get result key = get goal key ∨
      get result key = get state key ∧ ∀ item, spell key item ∉ entries := by
  induction entries generalizing state with
  | nil => exact ⟨state, rfl, fun key => .inr ⟨rfl, fun _ => List.not_mem_nil⟩⟩
  | cons entry entries ih =>
    obtain ⟨first, others⟩ := List.forall_mem_cons.mp sound
    obtain ⟨key, item, found, rfl⟩ := first
    obtain ⟨next, stepped, put, kept⟩ := puts state key item found
    obtain ⟨result, run, reached⟩ := ih others next
    refine ⟨result, ?_, fun other => ?_⟩
    · rw [List.foldlM_cons, stepped]
      exact run
    · rcases reached other with same | ⟨same, unwritten⟩
      · exact .inl same
      -- What is put in under a key stays, unless the same item is put in once more.
      · by_cases this : other = key
        · subst this
          exact .inl (by rw [same, put, found])
        · refine .inr ⟨by rw [same, kept other this], fun another member => ?_⟩
          rcases List.mem_cons.mp member with written | later
          · exact this (apart _ _ _ _ written)
          · exact unwritten another later

/-- A run from nothing that puts in every entry of `goal`, in any order, ends there. -/
theorem foldlM_restores (determined : ∀ result, (∀ key, get result key = get goal key) → result = goal)
    (listed : ∀ entry, entry ∈ entries ↔
      ∃ key item, get goal key = some item ∧ spell key item = entry)
    {state : State} (empty : ∀ key, get state key = none) :
    entries.foldlM step state = .ok goal := by
  obtain ⟨result, run, reached⟩ :=
    foldlM_puts get spell apart puts (fun entry => (listed entry).mp) state
  have same : result = goal := by
    apply determined
    intro key
    rcases reached key with same | ⟨same, unwritten⟩
    · exact same
    · rw [same, empty]
      cases found : get goal key with
      | none => rfl
      | some item => exact absurd ((listed _).mpr ⟨key, item, found, rfl⟩) (unwritten item)
  rw [run, same]

end Goal

end Runs

section Spellings

theorem readHex_markedHex (word : BitVec 64) : readHex (Numeral.markedHex word.toNat) = .ok word := by
  have numeral := Numeral.isNumeral_toDigits 16 (by decide) (by decide) word.toNat
  have plain : (Nat.toDigits 16 word.toNat).filter (· ≠ '_') = Nat.toDigits 16 word.toNat := by
    rw [List.filter_eq_self]
    intro char member
    have digit := Numeral.isDigit_of_mem numeral member
    simp only [ne_eq, decide_not, Bool.not_eq_true', decide_eq_false_iff_not]
    rintro rfl
    exact absurd digit (by decide)
  have written : WritesGrouped (Nat.toDigits 16 word.toNat) word.toNat := by
    rw [WritesGrouped, plain, Source.writesNumber_iff le_rfl]
    exact ⟨numeral, Numeral.value_toDigits 16 (by decide) (by decide) word.toNat⟩
  have spells : SpellsHex WritesGrouped (Numeral.markedHex word.toNat) word.toNat :=
    ⟨[], _, [], by simp [Numeral.markedHex, Numeral.hex], .marked (.inl rfl) written,
      List.forall_mem_nil _, List.forall_mem_nil _⟩
  exact readHex_eq_ok_iff.mpr ⟨word.toNat, word.isLt, .inl spells, by simp⟩

theorem readRegisterName_name (register : Gpr) : readRegisterName register.name = .ok register := by
  cases register <;> decide +kernel

theorem readLineNumber_decimal {line : Nat} (small : line < Numeral.wordLimit) :
    readLineNumber (Numeral.decimal line) = .ok line := by
  have written : Source.WritesNumber 10 (Nat.toDigits 10 line) line := by
    rw [Source.writesNumber_iff (by decide)]
    exact ⟨Numeral.isNumeral_decimal line, Numeral.value_decimal line⟩
  have read : Numeral.readBelow 10 Numeral.wordLimit (Nat.toDigits 10 line) = .ok line :=
    (Numeral.readBelow_eq_ok_iff (by decide) (by decide) (by decide)).mpr ⟨.inl written, small⟩
  rw [readLineNumber, Numeral.decimal, String.toList_ofList, read]

end Spellings

section Fields

/-- A table of written items is read item by item. -/
theorem readTable_map {Item Listed : Type} {readItem : Node → Except Error Item}
    (node : Listed → Node) (result : Listed → Item)
    (reads : ∀ item, readItem (node item) = .ok (result item)) (origin : Toml.Origin)
    (entries : List (String × Listed)) :
    readTable readItem (.table origin (entries.map fun entry => (entry.1, node entry.2))) =
      .ok (sortKeys (entries.map fun entry => (entry.1, result entry.2))) := by
  have all : (entries.map fun entry => (entry.1, node entry.2)).mapM
      (fun entry : String × Node => do return (entry.1, ← readItem entry.2)) =
        .ok (entries.map fun entry => (entry.1, result entry.2)) := by
    apply mapM_map_ok
    intro entry
    rw [reads]
    rfl
  rw [readTable, all]
  rfl

theorem mem_sortKeys_map {Item Listed : Type} {result : Listed → Item} {entry : String × Item}
    {entries : List (String × Listed)} :
    entry ∈ sortKeys (entries.map fun entry => (entry.1, result entry.2)) ↔
      ∃ name listed, (name, listed) ∈ entries ∧ (name, result listed) = entry := by
  rw [mem_sortKeys, List.mem_map]
  exact Prod.exists

theorem readRegisters_entries (registers : Gpr → Option (BitVec 64)) :
    readRegisters (.table .heading ((givenWords registers).map wordFormat.entry)) = .ok registers := by
  let text (word : BitVec 64) := Numeral.markedHex word.toNat
  have table : readTable readString (.table .heading ((givenWords registers).map wordFormat.entry)) =
      .ok (sortKeys ((givenWords registers).map fun entry => (entry.1, text entry.2))) :=
    readTable_map (fun word => .string (text word)) text (fun _ => rfl) .heading (givenWords registers)
  rw [readRegisters, table, ok_bind]
  refine foldlM_restores (fun registers register => registers register)
    (fun register word => (register.name, text word)) ?apart ?puts (fun _ => funext) ?listed fun _ => rfl
  case apart =>
    intro register word other another same
    exact Gpr.name_injective (Prod.mk.inj same).1
  case puts =>
    intro state register word found
    refine ⟨assign state register word, ?_, if_pos rfl, fun other apart => if_neg apart⟩
    simp only [readRegisterName_name, text, readHex_markedHex]
    rfl
  case listed =>
    intro entry
    rw [mem_sortKeys_map]
    simp only [mem_givenWords]
    constructor
    · rintro ⟨_, word, ⟨register, found, rfl⟩, rfl⟩
      exact ⟨register, word, found, rfl⟩
    · rintro ⟨register, word, found, rfl⟩
      exact ⟨register.name, word, ⟨register, found, rfl⟩, rfl⟩

theorem readAction_entry (action : LineAction) :
    readAction (.table .heading [actionFormat.entry action]) = .ok action := by
  cases action
  rfl

theorem readActions_tables (actions : List LineAction) :
    (do (← readItems (.elements (actionFormat.tables actions))).mapM readAction) = .ok actions := by
  have each := mapM_map_ok readAction_entry actions
  rw [List.map_id'] at each
  rw [readItems, PairFormat.tables, List.map_map]
  exact each

theorem readLineActions_table {lineActions : LineActions} (listed : Listed lineActions) :
    readLineActions (actionsTable lineActions) = .ok lineActions := by
  have table : readTable (fun item => do (← readItems item).mapM readAction) (actionsTable lineActions) =
      .ok (sortKeys ((actionsByKey lineActions).map fun entry => (entry.1, id entry.2))) :=
    readTable_map (fun actions => .elements (actionFormat.tables actions)) id readActions_tables _
      (actionsByKey lineActions)
  rw [readLineActions, table, ok_bind]
  refine foldlM_restores (fun lineActions line => lineActions[line]?)
    (fun line actions => (Numeral.decimal line, actions)) ?apart ?puts
    (fun _ => Std.ExtTreeMap.ext_getElem?) ?listed fun _ => Std.ExtTreeMap.getElem?_empty
  case apart =>
    intro line actions other another same
    exact Numeral.decimal_injective (Prod.mk.inj same).1
  case puts =>
    intro state line actions found
    obtain ⟨small, nonempty⟩ := listed line actions found
    refine ⟨state.insert line actions, ?_, Std.ExtTreeMap.getElem?_insert_self, fun other apart => ?_⟩
    · simp only [readLineNumber_decimal small, List.isEmpty_iff, nonempty]
      rfl
    · rw [Std.ExtTreeMap.getElem?_insert, if_neg]
      exact fun same => apart (Nat.compare_eq_eq.mp same).symm
  case listed =>
    intro entry
    rw [mem_sortKeys_map]
    simp only [mem_actionsByKey]
    constructor
    · rintro ⟨_, actions, ⟨line, found, rfl⟩, rfl⟩
      exact ⟨line, actions, found, rfl⟩
    · rintro ⟨line, actions, found, rfl⟩
      exact ⟨_, actions, ⟨line, found, rfl⟩, rfl⟩

variable (settings : Settings)

theorem readField_breakpoints (lines : List Nat) :
    readField settings ("breakpoints", .array (lines.map fun line : Nat => .integer line)) =
      .ok { settings with breakpoints := lines } := by
  have all := mapM_map_ok (fun line : Nat => (rfl : readNatural (.integer line) = .ok line)) lines
  rw [List.map_id'] at all
  simp only [readField, readItems, if_true, ok_bind, all]
  rfl

theorem readField_stack_eq (entry : String × Node) :
    readField settings ("stack", .table .heading [entry]) = readStackField settings entry >>= .ok :=
  rfl

theorem readField_stack (word : BitVec 64) :
    readField settings ("stack", .table .heading [wordFormat.entry ("base_address", word)]) =
      .ok { settings with stackBase := word } := by
  have field : readStackField settings (wordFormat.entry ("base_address", word)) =
      .ok { settings with stackBase := word } := by
    simp only [readStackField, PairFormat.entry, wordFormat, readString, if_true, ok_bind,
      readHex_markedHex]
    rfl
  rw [readField_stack_eq, field, ok_bind]

theorem readField_registers_eq (node : Node) :
    readField settings ("registers", node) =
      readRegisters node >>= fun registers => .ok { settings with registers := registers } :=
  rfl

theorem readField_registers (registers : Gpr → Option (BitVec 64)) :
    readField settings ("registers", .table .heading ((givenWords registers).map wordFormat.entry)) =
      .ok { settings with registers := registers } := by
  rw [readField_registers_eq, readRegisters_entries, ok_bind]

theorem readField_lineActions_eq (node : Node) :
    readField settings ("line_actions", node) =
      readLineActions node >>= fun lineActions => .ok { settings with lineActions := lineActions } :=
  rfl

theorem readField_lineActions {lineActions : LineActions} (listed : Listed lineActions) :
    readField settings ("line_actions", actionsTable lineActions) =
      .ok { settings with lineActions := lineActions } := by
  rw [readField_lineActions_eq, readLineActions_table listed, ok_bind]

theorem readField_run (stepsPerRun maxRuns : Nat) :
    readField settings ("run", .table .heading [numberFormat.entry ("steps_per_run", stepsPerRun),
      numberFormat.entry ("max_runs", maxRuns)]) =
      .ok { settings with stepsPerRun := stepsPerRun, maxRuns := maxRuns } :=
  rfl

/-- Settings that can be written are loaded from what is saved for them. -/
theorem Storable.load_save_eq {settings : Settings} (storable : settings.Storable)
    (positive : settings.stepsPerRun ≠ 0) : load settings.save = .ok settings := by
  have fields : settings.document.foldlM readField {} = .ok settings := by
    rw [document]
    simp only [List.foldlM_cons, List.foldlM_nil, readField_breakpoints, readField_stack,
      readField_registers, readField_lineActions _ storable.lineActions, readField_run, ok_bind]
    rfl
  rw [load, storable.read?_save]
  simp only [fields, ok_bind, if_neg positive]
  rfl

end Fields

/-- What was loaded once is loaded from what is saved for it, and starts the same machine. -/
theorem load_save {text : String} {settings : Settings} (loaded : load text = .ok settings) :
    load settings.save = .ok settings ∧
      (load settings.save).map initialMachine = .ok settings.initialMachine := by
  obtain ⟨storable, positive⟩ := storable_of_load loaded
  have again := storable.load_save_eq positive
  exact ⟨again, by rw [again]; rfl⟩

section Respelled

/-- A document in which a register, a word and a line are spelled otherwise than they are saved. -/
def respelled : List Toml.Statement :=
  [.pair ["breakpoints"] (.array [.integer 5, .integer 2]), .table ["registers"],
    .pair ["%RDI"] (.string " 2_A "), .element ["line_actions", "+10"], .pair ["type"] (.string "skip")]

/-- What it is loaded as. -/
def respelledSettings : Settings where
  breakpoints := [5, 2]
  registers := assign (fun _ => none) .rdi 0x2a
  lineActions := Std.ExtTreeMap.insert ∅ 10 [.skip]

theorem respelled_written : ∀ statement ∈ respelled, statement.Written := by
  have numbers : ∀ item ∈ [Toml.Value.integer 5, .integer 2], item.Written (Toml.nestingLimit - 1) :=
    List.forall_mem_cons.mpr ⟨.natural (by decide), List.forall_mem_singleton.mpr (.natural (by decide))⟩
  refine List.forall_mem_cons.mpr ⟨.pair (fits_single _) (.array numbers), ?_⟩
  refine List.forall_mem_cons.mpr ⟨.table (fits_single _), ?_⟩
  refine List.forall_mem_cons.mpr ⟨.pair (fits_single _) (.string _), ?_⟩
  refine List.forall_mem_cons.mpr ⟨.element (fits_pair _ _), ?_⟩
  exact List.forall_mem_singleton.mpr (.pair (fits_single _) (.string _))

theorem load_respelled : load (Toml.render respelled) = .ok respelledSettings := by
  have entries : Toml.Entries.read? (Toml.render respelled) = some
      [("breakpoints", .array [.integer 5, .integer 2]),
        ("registers", .table .heading [("%RDI", .string " 2_A ")]),
        ("line_actions", .table .implied [("+10", .elements [[("type", .string "skip")]])])] := by
    rw [Toml.Entries.read?, Toml.read?_render respelled_written]
    rfl
  have word : readHex " 2_A " = .ok 0x2a := by decide +kernel
  have register : readRegisterName "%RDI" = .ok .rdi := by decide +kernel
  have line : readLineNumber "+10" = .ok 10 := by decide +kernel
  have sorted {Item : Type} (entry : String × Item) : sortKeys [entry] = [entry] :=
    List.mergeSort_singleton entry
  have registers : readRegisters (.table .heading [("%RDI", .string " 2_A ")]) =
      .ok respelledSettings.registers := by
    have table : readTable readString (.table .heading [("%RDI", .string " 2_A ")]) =
        .ok (sortKeys [("%RDI", " 2_A ")]) := rfl
    rw [readRegisters, table, sorted]
    simp only [ok_bind, List.foldlM_cons, register, word]
    rfl
  have lineActions :
      readLineActions (.table .implied [("+10", .elements [[("type", .string "skip")]])]) =
        .ok respelledSettings.lineActions := by
    have table : readTable (fun item => do (← readItems item).mapM readAction)
        (.table .implied [("+10", .elements [[("type", .string "skip")]])]) =
          .ok (sortKeys [("+10", [.skip])]) := rfl
    rw [readLineActions, table, sorted]
    simp only [ok_bind, List.foldlM_cons, line]
    rfl
  rw [load, entries]
  have breakpoints := readField_breakpoints {} [5, 2]
  simp only [List.map_cons, List.map_nil, Nat.cast_ofNat] at breakpoints
  simp only [List.foldlM_cons, breakpoints, readField_registers_eq, readField_lineActions_eq, ok_bind,
    registers, lineActions]
  rfl

theorem load_save_respelled :
    load (Toml.render respelled) = .ok respelledSettings ∧
      load respelledSettings.save = .ok respelledSettings ∧
      (load respelledSettings.save).map initialMachine = .ok respelledSettings.initialMachine :=
  ⟨load_respelled, load_save load_respelled⟩

end Respelled

end AsmLab.Settings
