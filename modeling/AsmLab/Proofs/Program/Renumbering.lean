import AsmLab.Program
import AsmLab.Proofs.Source.Resolution
import AsmLab.Proofs.Source.WellFormed

/-! Numbers, label definitions and the next line number, and how renumbering restores them from what
an edit leaves alone: the statements of the lines and the names of the labels. -/
namespace AsmLab

/-- What a line says, without its number and its breakpoint. -/
def Line.content (line : Line) : Statement LabelRef × Option String :=
  (line.statement, line.comment)

theorem Line.WellFormed.of_content {line old : Line} (wellFormed : old.WellFormed)
    (same : line.content = old.content) : line.WellFormed := by
  obtain ⟨statement, comment⟩ := Prod.mk.inj same
  exact ⟨statement ▸ wellFormed.statement, statement ▸ comment ▸ wellFormed.comment⟩

namespace Program

/-- Numbers are positions, labels are defined where their lines stand, and names are used as the table
has them. -/
structure Consistent (program : Program) : Prop where
  numbers : ∀ index line, program.line? index = some line → line.number = index
  definitions : ∀ id index, program.labels.line? id = some index ↔
    ∃ line, program.line? index = some line ∧ line.definedLabel? = some id
  distinct : program.labels.names.Nodup
  known : ∀ line ∈ program.lines, program.labels.Knows line.statement.labels
  next : program.session.nextLine = program.length

/-- The part of consistency that renumbering restores. -/
structure Indexed (program : Program) : Prop where
  numbers : ∀ index line, program.line? index = some line → line.number = index
  definitions : ∀ id index, program.labels.line? id = some index ↔
    ∃ line, program.line? index = some line ∧ line.definedLabel? = some id
  next : program.session.nextLine = program.length

theorem Consistent.indexed {program : Program} (consistent : program.Consistent) :
    program.Indexed :=
  ⟨consistent.numbers, consistent.definitions, consistent.next⟩

/-- A consistent program of lines that have a text. -/
structure Sound (program : Program) : Prop extends program.Consistent where
  wellFormed : ∀ line ∈ program.lines, line.WellFormed

/-- What renumbering needs: the names are distinct and known, and no label is defined twice. -/
structure Labelled (labels : LabelTable) (contents : List (Statement LabelRef × Option String)) :
    Prop where
  distinct : labels.names.Nodup
  known : ∀ content ∈ contents, labels.Knows content.1.labels
  unique : (contents.filterMap fun content => content.1.definition?).Nodup
  wellFormed : ∀ content ∈ contents,
    content.1.names.WellFormed ∧ content.1.names.TakesComment content.2

namespace Labelled

variable {labels : LabelTable} {contents others : List (Statement LabelRef × Option String)}

theorem perm (labelled : Labelled labels contents) (same : contents.Perm others) :
    Labelled labels others where
  distinct := labelled.distinct
  known content member := labelled.known content (same.mem_iff.mpr member)
  unique := (same.filterMap _).nodup_iff.mp labelled.unique
  wellFormed content member := labelled.wellFormed content (same.mem_iff.mpr member)

theorem sublist (labelled : Labelled labels contents) (fewer : others.Sublist contents) :
    Labelled labels others where
  distinct := labelled.distinct
  known content member := labelled.known content (fewer.subset member)
  unique := (fewer.filterMap _).nodup labelled.unique
  wellFormed content member := labelled.wellFormed content (fewer.subset member)

theorem of_names {renamed : LabelTable} (labelled : Labelled labels contents)
    (same : renamed.names = labels.names) : Labelled renamed contents where
  distinct := same ▸ labelled.distinct
  known content member :=
    (labelled.known content member).mono (same ▸ List.prefix_rfl)
  unique := labelled.unique
  wellFormed := labelled.wellFormed

end Labelled

theorem getElem?_number (start index : Nat) (lines : List Line) :
    (number start lines)[index]? =
      lines[index]?.map fun line => { line with number := start + index } := by
  induction lines generalizing start index with
  | nil => rfl
  | cons line rest ih =>
    cases index with
    | zero => rfl
    | succ index => simp [number, ih, Nat.add_assoc, Nat.add_comm 1]

theorem line?_renumber (program : Program) (index : Nat) :
    program.renumber.line? index =
      (program.line? index).map fun line => { line with number := index } := by
  have placed := getElem?_number 0 index program.lines
  rwa [Nat.zero_add] at placed

theorem map_content_number (start : Nat) (lines : List Line) :
    (number start lines).map Line.content = lines.map Line.content := by
  induction lines generalizing start with
  | nil => rfl
  | cons line rest ih => simp [number, ih, Line.content]

theorem names_defineLabels (labels : LabelTable) (lines : List Line) :
    (defineLabels labels lines).names = labels.names := by
  unfold defineLabels
  induction lines generalizing labels with
  | nil => rfl
  | cons line rest ih =>
    rw [List.foldl_cons, ih]
    cases line.definedLabel? <;> simp

/-- Every label gets the number of the line that defines it. -/
theorem line?_defineLabels {labels : LabelTable} {lines : List Line}
    (known : ∀ line ∈ lines, ∀ id, line.definedLabel? = some id → ∃ name, labels.name? id = some name)
    (unique : (lines.filterMap Line.definedLabel?).Nodup) (id : LabelId) (index : Nat) :
    (defineLabels labels lines).line? id = some index ↔
      (∃ line ∈ lines, line.definedLabel? = some id ∧ line.number = index) ∨
        (∀ line ∈ lines, line.definedLabel? ≠ some id) ∧ labels.line? id = some index := by
  induction lines generalizing labels with
  | nil => simp [defineLabels]
  | cons line rest ih =>
    cases defined : line.definedLabel? with
    | none =>
      have step : defineLabels labels (line :: rest) = defineLabels labels rest := by
        simp [defineLabels, defined]
      rw [List.filterMap_cons_none defined] at unique
      rw [step, ih (fun other member => known other (List.mem_cons_of_mem line member)) unique]
      simp [defined]
    | some own =>
      have step : defineLabels labels (line :: rest) =
          defineLabels (labels.define own line.number) rest := by
        simp [defineLabels, defined]
      obtain ⟨name, named⟩ := known line (by simp) own defined
      rw [List.filterMap_cons_some defined, List.nodup_cons] at unique
      have ownOnce : ∀ other ∈ rest, other.definedLabel? ≠ some own := by
        intro other member same
        exact unique.1 (List.mem_filterMap.mpr ⟨other, member, same⟩)
      have knownRest : ∀ other ∈ rest, ∀ id, other.definedLabel? = some id →
          ∃ name, (labels.define own line.number).name? id = some name := by
        intro other member id same
        obtain ⟨name, named⟩ := known other (List.mem_cons_of_mem line member) id same
        exact ⟨name, by rwa [LabelTable.name?_eq, LabelTable.names_define, ← LabelTable.name?_eq]⟩
      rw [step, ih knownRest unique.2, LabelTable.line?_define named]
      by_cases same : id = own
      · subst same
        have elsewhere : ¬ ∃ other ∈ rest, other.definedLabel? = some id ∧ other.number = index :=
          fun ⟨other, member, defines, _⟩ => ownOnce other member defines
        simpa [defined, elsewhere] using fun _ => ownOnce
      · simp [defined, same, Ne.symm same]

theorem filterMap_definition? (lines : List Line) :
    (lines.map Line.content).filterMap (fun content => content.1.definition?) =
      lines.filterMap Line.definedLabel? := by
  rw [List.filterMap_map]
  congr 1
  funext line
  exact line.definedLabel?_eq.symm

theorem names_renumber (program : Program) :
    program.renumber.labels.names = program.labels.names := by
  simp [renumber, Program.labels, names_defineLabels]

/-- Renumbering makes a program sound if its statements and names allow it. -/
theorem renumber_sound {program : Program}
    (labelled : Labelled program.labels (program.lines.map Line.content)) :
    program.renumber.Sound := by
  have same : program.renumber.lines.map Line.content = program.lines.map Line.content :=
    map_content_number 0 program.lines
  have undefinedNames : program.labels.undefineAll.names = program.labels.names := by simp
  have renumbered := labelled.of_names program.names_renumber
  have undefined := labelled.of_names undefinedNames
  rw [← same] at renumbered undefined
  have lineAt (index : Nat) (line : Line) (found : program.renumber.line? index = some line) :
      line.number = index := by
    obtain ⟨old, _, rfl⟩ := Option.map_eq_some_iff.mp ((program.line?_renumber index).symm.trans found)
    rfl
  refine ⟨⟨lineAt, ?_, renumbered.distinct, ?_, ?_⟩, ?_⟩
  · intro id index
    have known : ∀ line ∈ program.renumber.lines, ∀ id, line.definedLabel? = some id →
        ∃ name, program.labels.undefineAll.name? id = some name := by
      intro line member id defines
      rw [line.definedLabel?_eq] at defines
      exact (undefined.known line.content (List.mem_map_of_mem member)).exists_name defines
    have unique := undefined.unique
    rw [filterMap_definition?] at unique
    apply (line?_defineLabels known unique id index).trans
    rw [LabelTable.line?_undefineAll]
    constructor
    · rintro (⟨line, member, defines, numbered⟩ | ⟨_, absurdity⟩)
      · obtain ⟨position, placed⟩ := List.mem_iff_getElem?.mp member
        obtain rfl := (lineAt position line placed).symm.trans numbered
        exact ⟨line, placed, defines⟩
      · cases absurdity
    · rintro ⟨line, placed, defines⟩
      exact .inl ⟨line, List.mem_of_getElem? placed, defines, lineAt index line placed⟩
  · intro line member
    exact renumbered.known line.content (List.mem_map_of_mem member)
  · simp [renumber, length]
  · intro line member
    have forms := renumbered.wellFormed line.content (List.mem_map_of_mem member)
    exact ⟨forms.1, forms.2⟩

/-- Keys that lead back to the position of their line are distinct. -/
theorem nodup_filterMap_of_index {Key : Type} {lines : List Line} {key? : Line → Option Key}
    {index? : Key → Option Nat}
    (indexed : ∀ index line key, lines[index]? = some line → key? line = some key →
      index? key = some index) : (lines.filterMap key?).Nodup := by
  rw [List.Nodup, List.pairwise_filterMap, List.pairwise_iff_getElem]
  intro first second firstBound secondBound before key firstKey other secondKey same
  subst same
  have firstIndex := indexed first _ key (List.getElem?_eq_getElem firstBound) firstKey
  have secondIndex := indexed second _ key (List.getElem?_eq_getElem secondBound) secondKey
  have equal : first = second := Option.some.inj (firstIndex.symm.trans secondIndex)
  omega

theorem Indexed.unique {program : Program} (indexed : program.Indexed) :
    (program.lines.filterMap Line.definedLabel?).Nodup := by
  apply nodup_filterMap_of_index
  intro index line id placed defines
  exact (indexed.definitions id index).mpr ⟨line, placed, defines⟩

theorem Sound.labelled {program : Program} (sound : program.Sound) :
    Labelled program.labels (program.lines.map Line.content) where
  distinct := sound.distinct
  known content member := by
    obtain ⟨line, listed, rfl⟩ := List.mem_map.mp member
    exact sound.known line listed
  unique := by
    rw [filterMap_definition?]
    exact sound.indexed.unique
  wellFormed content member := by
    obtain ⟨line, listed, rfl⟩ := List.mem_map.mp member
    exact ⟨(sound.wellFormed line listed).statement, (sound.wellFormed line listed).comment⟩

end Program

end AsmLab
