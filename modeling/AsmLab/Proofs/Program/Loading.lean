import AsmLab.Proofs.Program.Editing
import AsmLab.Proofs.Source.RoundTrip

/-! Reading a source line by line. It is accepted if each of its lines reads on its own and no label is
defined twice, and the program then means what the lines mean. -/
namespace AsmLab

open Source (Draft Session readDraft)

/-- What a text says on its own: a statement with its label names, and a comment. -/
def Source.meaning? (text : String) : Option (Statement String × Option String) :=
  (readDraft text).toOption.map fun draft => (draft.statement, draft.comment)

/-- The label name that a statement defines. -/
def Statement.definedName? : Statement String → Option String
  | .label name => some name
  | .instruction _ | .blank | .comment => none

theorem Statement.definedName?_eq_some {statement : Statement String} {name : String} :
    statement.definedName? = some name ↔ statement = .label name := by
  cases statement <;> simp [definedName?]

namespace Line

/-- What a line says, its labels given by name only. -/
def meaning (line : Line) : Statement String × Option String :=
  (line.statement.names, line.comment)

theorem meaning?_text {line : Line} (wellFormed : line.WellFormed) :
    (line.statement.Spelled → Source.meaning? line.text = some line.meaning) ∧
      (¬ line.statement.Spelled → Source.meaning? line.text = none) := by
  obtain ⟨keyword, back⟩ := Source.readDraft_text wellFormed
  rw [Statement.spelled_names] at back
  constructor
  · intro spelled
    rw [Source.meaning?, back.accepted spelled]
    rfl
  · intro unspelled
    obtain ⟨span, failed⟩ := back.rejected unspelled
    rw [Source.meaning?, failed]
    rfl

theorem meaning?_of_accepts {session next : Session} {text : String} {line : Line}
    (accepts : session.Accepts text line next) : Source.meaning? text = some line.meaning := by
  obtain ⟨keyword, draft⟩ := accepts.draft
  rw [Source.meaning?, draft]
  rfl

theorem definedLabel?_eq_some {line : Line} {id : LabelId} :
    line.definedLabel? = some id ↔ ∃ name, line.statement = .label ⟨id, name⟩ := by
  unfold definedLabel?
  cases line.statement with
  | label ref =>
    obtain ⟨other, name⟩ := ref
    simp
  | blank => simp
  | comment => simp
  | instruction body => simp

theorem definedName?_eq_some {line : Line} {name : String} :
    line.statement.names.definedName? = some name ↔ ∃ id, line.statement = .label ⟨id, name⟩ := by
  rw [Statement.definedName?_eq_some]
  cases named : line.statement with
  | label ref =>
    obtain ⟨id, other⟩ := ref
    simp [Statement.names, Statement.map]
  | blank => simp [Statement.names, Statement.map]
  | comment => simp [Statement.names, Statement.map]
  | instruction body => simp [Statement.names, Statement.map]

end Line

namespace Program

/-- The line on which a label name is defined. -/
def definitionOf? (program : Program) (name : String) : Option Nat :=
  (program.labels.lookup? name).bind program.labels.line?

variable {program reloaded : Program}

/-- A label that a line names has its definition under that name. -/
theorem Consistent.line?_id (consistent : program.Consistent) {line : Line}
    (member : line ∈ program.lines) (label : LabelRef) (named : label ∈ line.statement.labels) :
    program.labels.line? label.id = program.definitionOf? label.name := by
  have known := consistent.known line member label named
  rw [definitionOf?, (LabelTable.lookup?_eq_some_iff consistent.distinct).mpr known,
    Option.bind_some]

/-- The line of a label is the definition of its name. -/
theorem Consistent.exists_definition (consistent : program.Consistent) {id : LabelId}
    {name : String} {index : Nat} (named : program.labels.name? id = some name)
    (defined : program.labels.line? id = some index) :
    ∃ line, program.line? index = some line ∧ line.statement = .label ⟨id, name⟩ := by
  obtain ⟨line, placed, defines⟩ := (consistent.definitions id index).mp defined
  obtain ⟨other, label⟩ := Line.definedLabel?_eq_some.mp defines
  have known := consistent.known line (List.mem_of_getElem? placed) ⟨id, other⟩
    (by simp [label, Statement.labels])
  obtain rfl := Option.some.inj (known.symm.trans named)
  exact ⟨line, placed, label⟩

theorem Consistent.definitionOf?_eq_some (consistent : program.Consistent) {name : String}
    {index : Nat} :
    program.definitionOf? name = some index ↔
      ∃ line, program.line? index = some line ∧
        line.statement.names.definedName? = some name := by
  constructor
  · intro found
    obtain ⟨id, found, defined⟩ := Option.bind_eq_some_iff.mp found
    obtain ⟨line, placed, label⟩ :=
      consistent.exists_definition (LabelTable.name?_of_lookup? found) defined
    exact ⟨line, placed, Line.definedName?_eq_some.mpr ⟨id, label⟩⟩
  · rintro ⟨line, placed, defines⟩
    obtain ⟨id, label⟩ := Line.definedName?_eq_some.mp defines
    have same := consistent.line?_id (List.mem_of_getElem? placed) ⟨id, name⟩
      (by simp [label, Statement.labels])
    exact same.symm.trans ((consistent.definitions id index).mpr
      ⟨line, placed, Line.definedLabel?_eq_some.mpr ⟨name, label⟩⟩)

theorem Consistent.definitionOf?_eq_some_meaning (consistent : program.Consistent) {name : String}
    {index : Nat} :
    program.definitionOf? name = some index ↔
      ∃ meaning, (program.lines.map Line.meaning)[index]? = some meaning ∧
        meaning.1.definedName? = some name := by
  rw [consistent.definitionOf?_eq_some]
  simp [line?, Line.meaning]

/-- No name is defined by two lines. -/
theorem Consistent.definedNames_nodup (consistent : program.Consistent) :
    ((program.lines.map Line.meaning).filterMap fun meaning => meaning.1.definedName?).Nodup := by
  rw [List.filterMap_map]
  apply nodup_filterMap_of_index
  intro index line name placed defines
  exact consistent.definitionOf?_eq_some.mpr ⟨line, placed, defines⟩

theorem readLines_concat (texts : List String) (text : String) :
    readLines (texts ++ [text]) = pushOrReport (readLines texts) text := by
  simp [readLines]

theorem pushOrReport_eq_ok {state : Program × List SourceError} {text : String} :
    pushOrReport state text = (reloaded, []) ↔
      state.2 = [] ∧ ∃ index, state.1.push text = (.ok index, reloaded) := by
  obtain ⟨program, errors⟩ := state
  cases pushed : program.push text with
  | mk result longer =>
    cases result with
    | ok index => simp [pushOrReport, pushed, and_comm]
    | error error => simp [pushOrReport, pushed]

theorem push_ok (consistent : program.Consistent) {text : String} {index : Nat}
    (pushed : program.push text = (.ok index, reloaded)) :
    ∃ line next, program.session.parseLine text = (.ok line, next) ∧
      reloaded = ⟨program.lines ++ [line], next⟩ := by
  unfold push at pushed
  rw [setLine_length consistent.next] at pushed
  split at pushed
  · cases pushed
  · rename_i line next accepted
    cases pushed
    exact ⟨line, next, accepted, rfl⟩

/-- A program that was read without an error means what its texts mean. -/
theorem readLines_meanings {texts : List String} (read : readLines texts = (program, [])) :
    texts.map Source.meaning? = (program.lines.map Line.meaning).map some := by
  induction texts using List.reverseRecOn generalizing program with
  | nil =>
    cases read
    rfl
  | append_singleton texts text ih =>
    rw [readLines_concat, pushOrReport_eq_ok] at read
    obtain ⟨noErrors, index, pushed⟩ := read
    have consistent := (readLines_sound texts).toConsistent
    obtain ⟨line, next, accepted, rfl⟩ := push_ok consistent pushed
    rw [List.map_append, ih (Prod.ext rfl noErrors)]
    simp [Line.meaning?_of_accepts (Session.parseLine_ok accepted)]

/-- A text is read, whatever number its line gets, unless it defines a name that a line defines
already. -/
theorem exists_parseLine (consistent : program.Consistent) (number : Nat) {text : String}
    {meaning : Statement String × Option String} (reads : Source.meaning? text = some meaning)
    (fresh : ∀ name, meaning.1.definedName? = some name → program.definitionOf? name = none) :
    ∃ line next, (program.session.setLine number).parseLine text = (.ok line, next) := by
  obtain ⟨draft, found, rfl⟩ := Option.map_eq_some_iff.mp reads
  have read : readDraft text = .ok draft := by
    cases result : readDraft text with
    | ok other => exact congrArg Except.ok (by simpa [result, Except.toOption] using found)
    | error error => simp [result, Except.toOption] at found
  apply Session.parseLine_of_undefined read
  intro name labelled id named
  have nowhere := fresh name (by rw [labelled]; rfl)
  rwa [definitionOf?, (LabelTable.lookup?_eq_some_iff consistent.distinct).mpr named,
    Option.bind_some] at nowhere

theorem exists_push (consistent : program.Consistent) {text : String}
    {meaning : Statement String × Option String} (reads : Source.meaning? text = some meaning)
    (fresh : ∀ name, meaning.1.definedName? = some name → program.definitionOf? name = none) :
    ∃ index longer, program.push text = (.ok index, longer) := by
  obtain ⟨line, next, accepted⟩ := exists_parseLine consistent program.length reads fresh
  exact ⟨_, _, by rw [push, accepted]⟩

/-- Texts are read without an error if each reads on its own and no label is defined twice. -/
theorem readLines_of_meanings {texts : List String}
    {meanings : List (Statement String × Option String)}
    (reads : texts.map Source.meaning? = meanings.map some)
    (distinct : (meanings.filterMap fun meaning => meaning.1.definedName?).Nodup) :
    ∃ program, readLines texts = (program, []) := by
  induction texts using List.reverseRecOn generalizing meanings with
  | nil => exact ⟨empty, rfl⟩
  | append_singleton texts text ih =>
    rcases List.eq_nil_or_concat' meanings with rfl | ⟨before, last, rfl⟩
    · simp at reads
    · rw [List.map_append, List.map_append] at reads
      obtain ⟨readsBefore, readsLast⟩ := List.append_inj' reads rfl
      rw [List.filterMap_append, List.nodup_append] at distinct
      obtain ⟨distinctBefore, _, disjoint⟩ := distinct
      obtain ⟨program, read⟩ := ih readsBefore distinctBefore
      have consistent : program.Consistent := by
        have sound := readLines_sound texts
        rw [read] at sound
        exact sound.toConsistent
      have same : program.lines.map Line.meaning = before :=
        List.map_injective_iff.mpr (Option.some_injective _)
          ((readLines_meanings read).symm.trans readsBefore)
      have fresh (name : String) (defines : last.1.definedName? = some name) :
          program.definitionOf? name = none := by
        by_contra defined
        obtain ⟨index, found⟩ := Option.ne_none_iff_exists'.mp defined
        obtain ⟨line, placed, lineDefines⟩ := consistent.definitionOf?_eq_some.mp found
        have earlier : name ∈ before.filterMap fun meaning => meaning.1.definedName? := by
          rw [← same]
          exact List.mem_filterMap.mpr ⟨line.meaning,
            List.mem_map_of_mem (List.mem_of_getElem? placed), lineDefines⟩
        exact disjoint name earlier name (by simp [defines]) rfl
      obtain ⟨index, longer, pushed⟩ := exists_push consistent (List.singleton_inj.mp readsLast) fresh
      refine ⟨longer, ?_⟩
      rw [readLines_concat, pushOrReport_eq_ok, read]
      exact ⟨rfl, index, pushed⟩

end Program

end AsmLab
