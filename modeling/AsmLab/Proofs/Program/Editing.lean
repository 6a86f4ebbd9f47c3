import AsmLab.Proofs.Program.Renumbering

/-! Every program that edits lead to is consistent: each edit keeps it so, whether it succeeds or not,
and so does reading a source line by line. -/
namespace AsmLab

open Source (Session)

/-- A call that changes a program. Indexes and texts are arbitrary. -/
inductive Edit where
  | push (text : String)
  | insert (index : Nat) (text : String)
  | replace (index : Nat) (text : String)
  | remove (index : Nat)
  | toggleBreakpoint (index : Nat)
  | clear

namespace Program

/-- The program after an edit, also one that was rejected. -/
def edit (program : Program) : Edit → Program
  | .push text => (program.push text).2
  | .insert index text => (program.insert index text).2
  | .replace index text => (program.replace index text).2
  | .remove index => (program.remove index).2
  | .toggleBreakpoint index => program.toggleBreakpoint index
  | .clear => empty

/-- Programs that edits lead to, from no line or from a source that was read without an error. -/
inductive Reachable : Program → Prop where
  | start : Reachable empty
  | loaded {source : String} {program : Program} (read : ofSource source = .ok program) :
      Reachable program
  | edited {program : Program} (reached : Reachable program) (edit : Edit) :
      Reachable (program.edit edit)

theorem empty_sound : empty.Sound := by
  refine ⟨⟨?_, ?_, ?_, ?_, rfl⟩, ?_⟩ <;>
    simp [empty, line?, labels, Session.empty, LabelTable.empty, LabelTable.line?, LabelTable.names]

variable {program : Program}

theorem setLine_length (next : program.session.nextLine = program.length) :
    program.session.setLine program.length = program.session := by
  rw [← next]
  rfl

/-- A label without a line is defined by no line. -/
theorem Consistent.not_mem_of_line? (consistent : program.Consistent) {id : LabelId}
    (undefined : program.labels.line? id = none) :
    ∀ line ∈ program.lines, line.definedLabel? ≠ some id := by
  intro line member defines
  obtain ⟨index, placed⟩ := List.mem_iff_getElem?.mp member
  have defined := (consistent.definitions id index).mpr ⟨line, placed, defines⟩
  simp [undefined] at defined

theorem getElem?_concat {Item : Type} {items : List Item} {last found : Item} {index : Nat} :
    (items ++ [last])[index]? = some found ↔
      items[index]? = some found ∨ index = items.length ∧ last = found := by
  rw [List.getElem?_append, List.getElem?_singleton]
  by_cases inside : index < items.length
  · simp [inside, Nat.ne_of_lt inside]
  · have past : items[index]? = none := List.getElem?_eq_none (Nat.le_of_not_lt inside)
    simp only [if_neg inside, past, reduceCtorEq, false_or]
    split <;> simp <;> omega

theorem Sound.append (sound : program.Sound) {line : Line} {next : Session}
    (number : line.number = program.length) (wellFormed : line.WellFormed)
    (resolved : Source.Resolves program.labels program.length line.statement next.labels)
    (nextLine : next.nextLine = program.length + 1) :
    Sound ⟨program.lines ++ [line], next⟩ := by
  have placed (index : Nat) (other : Line) :
      (program.lines ++ [line])[index]? = some other ↔
        program.line? index = some other ∨ index = program.length ∧ line = other :=
    getElem?_concat
  refine ⟨⟨?_, ?_, resolved.distinct sound.distinct, ?_, ?_⟩, ?_⟩
  · intro index other found
    rcases (placed index other).mp found with old | ⟨rfl, rfl⟩
    · exact sound.numbers index other old
    · exact number
  · intro id index
    apply (Eq.congr_left (resolved.lines id)).trans
    rw [← line.definedLabel?_eq]
    by_cases defines : line.definedLabel? = some id
    · rw [if_pos defines]
      rw [line.definedLabel?_eq] at defines
      have nowhere := sound.not_mem_of_line? (resolved.fresh id defines)
      rw [← line.definedLabel?_eq] at defines
      constructor
      · intro last
        obtain rfl := Option.some.inj last
        exact ⟨line, (placed _ line).mpr (.inr ⟨rfl, rfl⟩), defines⟩
      · rintro ⟨other, found, otherDefines⟩
        rcases (placed index other).mp found with old | ⟨rfl, _⟩
        · exact absurd otherDefines (nowhere other (List.mem_of_getElem? old))
        · rfl
    · rw [if_neg defines, sound.definitions id index]
      constructor
      · rintro ⟨other, old, otherDefines⟩
        exact ⟨other, (placed index other).mpr (.inl old), otherDefines⟩
      · rintro ⟨other, found, otherDefines⟩
        rcases (placed index other).mp found with old | ⟨_, rfl⟩
        · exact ⟨other, old, otherDefines⟩
        · exact absurd otherDefines defines
  · intro other member
    rcases List.mem_append.mp member with old | added
    · exact (sound.known other old).mono resolved.names
    · obtain rfl := List.mem_singleton.mp added
      exact resolved.known
  · simp [length, nextLine]
  · intro other member
    rcases List.mem_append.mp member with old | added
    · exact sound.wellFormed other old
    · obtain rfl := List.mem_singleton.mp added
      exact wellFormed

theorem push_sound (sound : program.Sound) (text : String) : (program.push text).2.Sound := by
  unfold push
  rw [setLine_length sound.next]
  split
  · rename_i rejected
    rw [Session.parseLine_error rejected]
    exact sound
  · rename_i accepted
    have accepts := Session.parseLine_ok accepted
    have labels := accepts.labels
    rw [sound.next] at labels
    exact sound.append (accepts.number.trans sound.next) accepts.wellFormed labels
      (accepts.nextLine.trans (by rw [sound.next]))

theorem Labelled.cons {old new : LabelTable} {number : Nat}
    {contents : List (Statement LabelRef × Option String)} {line : Line}
    (labelled : Labelled old contents) (wellFormed : line.WellFormed)
    (resolved : Source.Resolves old number line.statement new)
    (unused : ∀ id, line.statement.definition? = some id →
      id ∉ contents.filterMap fun content => content.1.definition?) :
    Labelled new (line.content :: contents) where
  distinct := resolved.distinct labelled.distinct
  known content member := by
    rcases List.mem_cons.mp member with rfl | old
    · exact resolved.known
    · exact (labelled.known content old).mono resolved.names
  unique := by
    cases defined : line.statement.definition? with
    | none => simpa [Line.content, defined] using labelled.unique
    | some id =>
      simp only [List.filterMap_cons, Line.content, defined]
      exact List.nodup_cons.mpr ⟨unused id defined, labelled.unique⟩
  wellFormed content member := by
    rcases List.mem_cons.mp member with rfl | old
    · exact ⟨wellFormed.statement, wellFormed.comment⟩
    · exact labelled.wellFormed content old

theorem insert_sound (sound : program.Sound) (index : Nat) (text : String) :
    (program.insert index text).2.Sound := by
  unfold insert
  simp only
  split
  · rename_i rejected
    rw [Session.parseLine_error rejected]
    exact renumber_sound sound.labelled
  · rename_i line next accepted
    have accepts := Session.parseLine_ok accepted
    apply renumber_sound
    have labelled : Labelled next.labels ((line :: program.lines).map Line.content) := by
      apply sound.labelled.cons accepts.wellFormed accepts.labels
      intro id defines member
      rw [filterMap_definition?] at member
      obtain ⟨other, listed, otherDefines⟩ := List.mem_filterMap.mp member
      exact sound.not_mem_of_line? (accepts.labels.fresh id defines) other listed otherDefines
    exact labelled.perm
      ((List.perm_insertIdx line program.lines (Nat.min_le_right _ _)).symm.map Line.content)

theorem remove_sound (sound : program.Sound) (index : Nat) : (program.remove index).2.Sound := by
  unfold remove
  split
  · exact sound
  · exact renumber_sound (sound.labelled.sublist ((List.eraseIdx_sublist _ _).map _))

theorem modifyLine_sound (sound : program.Sound) (index : Nat) {change : Line → Line}
    (same : ∀ line, (change line).number = line.number ∧ (change line).content = line.content) :
    (program.modifyLine index change).Sound := by
  have placed (position : Nat) : (program.modifyLine index change).line? position =
      (program.line? position).map fun line => if index = position then change line else line :=
    List.getElem?_modify change index program.lines position
  have kept (position : Nat) (line : Line) :
      (if index = position then change line else line).number = line.number ∧
        (if index = position then change line else line).content = line.content := by
    split
    · exact same line
    · exact ⟨rfl, rfl⟩
  have before {position : Nat} {line : Line}
      (found : (program.modifyLine index change).line? position = some line) :
      ∃ old, program.line? position = some old ∧ line.number = old.number ∧
        line.content = old.content := by
    rw [placed] at found
    obtain ⟨old, oldFound, rfl⟩ := Option.map_eq_some_iff.mp found
    exact ⟨old, oldFound, kept position old⟩
  refine ⟨⟨?_, ?_, sound.distinct, ?_, ?_⟩, ?_⟩
  · intro position line found
    obtain ⟨old, oldFound, number, _⟩ := before found
    exact number.trans (sound.numbers position old oldFound)
  · intro id position
    apply (sound.definitions id position).trans
    constructor
    · rintro ⟨old, oldFound, defines⟩
      refine ⟨_, by rw [placed, oldFound]; rfl, ?_⟩
      rw [Line.definedLabel?_eq] at *
      exact (congrArg (fun content => content.1.definition?) (kept position old).2).trans defines
    · rintro ⟨line, found, defines⟩
      obtain ⟨old, oldFound, _, content⟩ := before found
      refine ⟨old, oldFound, ?_⟩
      rw [Line.definedLabel?_eq] at *
      exact (congrArg (fun content => content.1.definition?) content).symm.trans defines
  · intro line member
    obtain ⟨position, found⟩ := List.mem_iff_getElem?.mp member
    obtain ⟨old, oldFound, _, content⟩ := before found
    have known := sound.known old (List.mem_of_getElem? oldFound)
    rwa [← show line.statement = old.statement from congrArg Prod.fst content] at known
  · rw [length, modifyLine, List.length_modify]
    exact sound.next
  · intro line member
    obtain ⟨position, found⟩ := List.mem_iff_getElem?.mp member
    obtain ⟨old, oldFound, _, content⟩ := before found
    exact (sound.wellFormed old (List.mem_of_getElem? oldFound)).of_content content

theorem remove_some {index : Nat} {old : Line} {shorter : Program}
    (removed : program.remove index = (some old, shorter)) :
    program.line? index = some old ∧
      shorter = renumber { program with lines := program.lines.eraseIdx index } := by
  unfold remove at removed
  split at removed
  · cases removed
  · rename_i found
    cases removed
    exact ⟨found, rfl⟩

theorem insert_error {index : Nat} {text : String} {error : Source.ParseError} {rest : Program}
    (rejected : program.insert index text = (.error error, rest)) :
    rest = renumber
      { program with session := program.session.setLine (min index program.length) } := by
  unfold insert at rejected
  simp only at rejected
  split at rejected
  · rename_i failed
    rw [Session.parseLine_error failed] at rejected
    cases rejected
    rfl
  · cases rejected

/-- Putting a line back where it was taken out restores what renumbering needs. -/
theorem Labelled.reinsert {labels rest : LabelTable} {lines : List Line} {shorter : List Line}
    {index : Nat} {old : Line} (labelled : Labelled labels (lines.map Line.content))
    (found : lines[index]? = some old) (names : rest.names = labels.names)
    (same : shorter.map Line.content = (lines.eraseIdx index).map Line.content) :
    Labelled rest ((shorter.insertIdx index old).map Line.content) := by
  obtain ⟨bound, rfl⟩ := List.getElem?_eq_some_iff.mp found
  have fits : index ≤ shorter.length := by
    have lengths := congrArg List.length same
    rw [List.length_map, List.length_map, List.length_eraseIdx_of_lt bound] at lengths
    omega
  have inserted := (List.perm_insertIdx lines[index] shorter fits).map Line.content
  have erased := (List.getElem_cons_eraseIdx_perm bound).map Line.content
  rw [List.map_cons, same, ← List.map_cons] at inserted
  exact (labelled.of_names names).perm (inserted.trans erased).symm

theorem replace_sound (sound : program.Sound) (index : Nat) (text : String) :
    (program.replace index text).2.Sound := by
  have shorterSound := remove_sound sound index
  unfold replace
  split
  · rename_i unchanged removed
    rw [removed] at shorterSound
    exact insert_sound shorterSound index text
  · rename_i old shorter removed
    rw [removed] at shorterSound
    have insertedSound := insert_sound shorterSound index text
    split
    · rename_i longer inserted
      rw [inserted] at insertedSound
      exact modifyLine_sound insertedSound index fun _ => ⟨rfl, rfl⟩
    · rename_i error rest rejected
      obtain ⟨found, rfl⟩ := remove_some removed
      obtain rfl := insert_error rejected
      refine renumber_sound (sound.labelled.reinsert found ?_ ?_)
      · exact (names_renumber _).trans (names_renumber _)
      · exact (map_content_number 0 _).trans (map_content_number 0 _)

theorem edit_sound (sound : program.Sound) (edit : Edit) : (program.edit edit).Sound := by
  cases edit with
  | push text => exact push_sound sound text
  | insert index text => exact insert_sound sound index text
  | replace index text => exact replace_sound sound index text
  | remove index => exact remove_sound sound index
  | toggleBreakpoint index => exact modifyLine_sound sound index fun _ => ⟨rfl, rfl⟩
  | clear => exact empty_sound

theorem push_error (next : program.session.nextLine = program.length) {text : String}
    {error : Source.ParseError} {rest : Program}
    (rejected : program.push text = (.error error, rest)) : rest = program := by
  unfold push at rejected
  rw [setLine_length next] at rejected
  split at rejected
  · rename_i failed
    rw [Session.parseLine_error failed] at rejected
    cases rejected
    rfl
  · cases rejected

theorem pushOrReport_sound {state : Program × List SourceError} (sound : state.1.Sound)
    (text : String) : (pushOrReport state text).1.Sound := by
  have pushed := push_sound sound text
  unfold pushOrReport
  split
  rename_i program errors
  simp only
  split
  · rename_i accepted
    rwa [accepted] at pushed
  · rename_i rejected
    obtain rfl := push_error sound.next rejected
    exact sound.append rfl ⟨trivial, rfl⟩
      (.of_extends (.refl _) (LabelTable.knows_nil _) rfl) (by simp [Session.setLine, length])

theorem readLines_sound (texts : List String) : (readLines texts).1.Sound := by
  have fold (state : Program × List SourceError) (sound : state.1.Sound) :
      (texts.foldl pushOrReport state).1.Sound := by
    induction texts generalizing state with
    | nil => exact sound
    | cons text rest ih => exact ih _ (pushOrReport_sound sound text)
  exact fold (empty, []) empty_sound

theorem ofSource_sound {source : String} (read : ofSource source = .ok program) :
    program.Sound := by
  have sound := readLines_sound ((splitLines source.toList).map String.ofList)
  unfold ofSource at read
  split at read
  · rename_i lines whole
    obtain rfl := Except.ok.inj read
    rwa [whole] at sound
  · cases read

theorem Reachable.sound (reached : Reachable program) : program.Sound := by
  induction reached with
  | start => exact empty_sound
  | loaded read => exact ofSource_sound read
  | edited _ edit sound => exact edit_sound sound edit

/-- However a program was edited, its numbers, its label definitions and its label names agree. -/
theorem Reachable.consistent (reached : Reachable program) : program.Consistent :=
  reached.sound.toConsistent

/-- A label whose line moves down, and a second definition of it that is rejected. -/
theorem consistent_loop :
    let program := (((empty.edit (.push "loop:")).edit (.push "jmp loop")).edit
      (.insert 0 "incq %rax")).edit (.push "loop:")
    program.Reachable ∧ program.Consistent ∧ program.labels.line? ⟨0⟩ = some 1 := by
  intro program
  have reached : program.Reachable := .edited (.edited (.edited (.edited .start _) _) _) _
  exact ⟨reached, reached.consistent, by decide +kernel⟩

end Program

end AsmLab
