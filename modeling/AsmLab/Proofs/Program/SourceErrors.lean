import AsmLab.Proofs.Program.ErasedLines
import AsmLab.Proofs.Program.Reload
import AsmLab.Proofs.Source.SessionIndependence

/-! The errors of a source stand alone. A rejected line leaves no trace but its error, so that the
other lines are read as they would be with an empty line in its place. -/
namespace AsmLab

open Source (Session ParseError)

/-- The session that some lines leave behind, each of them read with its position as its number. -/
def Source.Session.afterLines (texts : List String) : Session :=
  texts.foldl (fun session text => (session.parseLine text).2.setLine (session.nextLine + 1)) empty

theorem Source.Session.afterLines_concat (texts : List String) (text : String) :
    afterLines (texts ++ [text]) =
      ((afterLines texts).parseLine text).2.setLine ((afterLines texts).nextLine + 1) := by
  simp [afterLines]

/-- An empty text is a blank line. -/
theorem Source.Session.parseLine_empty (session : Session) :
    session.parseLine "" =
      (.ok ⟨session.nextLine, .blank, none, false⟩, ⟨session.nextLine + 1, session.labels⟩) := by
  have read : Source.readDraft "" = .ok ⟨.blank, none, ⟨0, 0⟩⟩ := by decide +kernel
  rw [parseLine, read]
  rfl

namespace Program

variable {program : Program} {errors : List SourceError} {texts : List String}

/-- What is read of some lines: an accepted one is added to the program, a rejected one is reported and
takes its place as a blank line. -/
inductive Reads : List String → Program → List SourceError → Prop where
  | nil : Reads [] empty []
  | accepted {texts : List String} {program : Program} {errors : List SourceError} {text : String}
      {line : Line} {next : Session} (earlier : Reads texts program errors)
      (parsed : program.session.parseLine text = (.ok line, next)) :
      Reads (texts ++ [text]) ⟨program.lines ++ [line], next⟩ errors
  | rejected {texts : List String} {program : Program} {errors : List SourceError} {text : String}
      {error : ParseError} {next : Session} (earlier : Reads texts program errors)
      (failed : program.session.parseLine text = (.error error, next)) :
      Reads (texts ++ [text])
        ⟨program.lines ++ [placeholder program.length],
          program.session.setLine (program.length + 1)⟩
        (errors ++ [⟨program.length, text, error⟩])

theorem pushOrReport_accepted {text : String} {line : Line} {next : Session}
    (consistent : program.Consistent) (parsed : program.session.parseLine text = (.ok line, next)) :
    pushOrReport (program, errors) text = (⟨program.lines ++ [line], next⟩, errors) := by
  simp [pushOrReport, push, setLine_length consistent.next, parsed]

theorem pushOrReport_rejected {text : String} {error : ParseError} {next : Session}
    (consistent : program.Consistent)
    (failed : program.session.parseLine text = (.error error, next)) :
    pushOrReport (program, errors) text =
      (⟨program.lines ++ [placeholder program.length],
          program.session.setLine (program.length + 1)⟩,
        errors ++ [⟨program.length, text, error⟩]) := by
  obtain rfl := Session.parseLine_error failed
  simp only [pushOrReport, push, setLine_length consistent.next, failed]
  rw [List.length_append]
  rfl

theorem reads_readLines (texts : List String) :
    Reads texts (readLines texts).1 (readLines texts).2 := by
  induction texts using List.reverseRecOn with
  | nil => exact .nil
  | append_singleton texts text ih =>
    have consistent := (readLines_sound texts).toConsistent
    rw [readLines_concat]
    cases outcome : (readLines texts).1.session.parseLine text with
    | mk result next =>
      cases result with
      | ok line =>
        rw [pushOrReport_accepted consistent outcome]
        exact ih.accepted outcome
      | error error =>
        rw [pushOrReport_rejected consistent outcome]
        exact ih.rejected outcome

namespace Reads

variable (reads : Reads texts program errors)
include reads

theorem readLines_eq : readLines texts = (program, errors) := by
  induction reads with
  | nil => rfl
  | @accepted texts _ _ _ _ _ _ parsed ih =>
    have sound := readLines_sound texts
    rw [ih] at sound
    rw [readLines_concat, ih, pushOrReport_accepted sound.toConsistent parsed]
  | @rejected texts _ _ _ _ _ _ failed ih =>
    have sound := readLines_sound texts
    rw [ih] at sound
    rw [readLines_concat, ih, pushOrReport_rejected sound.toConsistent failed]

theorem sound : program.Sound := by
  have sound := readLines_sound texts
  rwa [reads.readLines_eq] at sound

theorem length_eq : program.length = texts.length := by
  induction reads with
  | nil => rfl
  | accepted _ _ ih => simpa [length] using ih
  | rejected _ _ ih => simpa [length] using ih

/-- As many lines were read as the program has, so that the next one gets its position as number. -/
theorem nextLine_eq : program.session.nextLine = texts.length :=
  reads.sound.next.trans reads.length_eq

theorem session_eq : program.session = Session.afterLines texts := by
  induction reads with
  | nil => rfl
  | accepted earlier parsed ih =>
    have next := (Session.parseLine_ok parsed).nextLine
    rw [Session.afterLines_concat, ← ih, parsed, ← next]
    rfl
  | rejected earlier failed ih =>
    rw [Session.afterLines_concat, ← ih, failed, Session.parseLine_error failed,
      earlier.sound.next]

end Reads

/-- A reported line: its text, the reason and the blank line in its place. -/
structure ErrorAt (texts : List String) (program : Program) (error : SourceError) : Prop where
  text : texts[error.line]? = some error.text
  failed : ((Session.afterLines (texts.take error.line)).parseLine error.text).1 =
    .error error.error
  blank : program.line? error.line = some (placeholder error.line)

/-- A line that is not reported: its text and what was read. -/
structure LineAt (texts : List String) (program : Program) (index : Nat) (text : String)
    (line : Line) : Prop where
  parsed : ((Session.afterLines (texts.take index)).parseLine text).1 = .ok line
  placed : program.line? index = some line

theorem ErrorAt.lt {error : SourceError} (errorAt : ErrorAt texts program error) :
    error.line < texts.length :=
  (List.getElem?_eq_some_iff.mp errorAt.text).1

theorem line?_append {index : Nat} {line last : Line} {session : Session}
    (placed : program.line? index = some line) :
    line? ⟨program.lines ++ [last], session⟩ index = some line := by
  rw [line?, List.getElem?_append_left (List.getElem?_eq_some_iff.mp placed).1]
  exact placed

theorem ErrorAt.append {error : SourceError} (errorAt : ErrorAt texts program error)
    (text : String) (line : Line) (session : Session) :
    ErrorAt (texts ++ [text]) ⟨program.lines ++ [line], session⟩ error where
  text := by rw [List.getElem?_append_left errorAt.lt, errorAt.text]
  failed := by rw [List.take_append_of_le_length errorAt.lt.le, errorAt.failed]
  blank := line?_append errorAt.blank

theorem LineAt.append {index : Nat} {text : String} {line : Line}
    (lineAt : LineAt texts program index text line) (inside : index < texts.length)
    (more : String) (last : Line) (session : Session) :
    LineAt (texts ++ [more]) ⟨program.lines ++ [last], session⟩ index text line where
  parsed := by rw [List.take_append_of_le_length inside.le, lineAt.parsed]
  placed := line?_append lineAt.placed

namespace Reads

variable (reads : Reads texts program errors)
include reads

theorem errorAt : ∀ error ∈ errors, ErrorAt texts program error := by
  induction reads with
  | nil => exact List.forall_mem_nil _
  | accepted _ _ ih => exact fun error member => (ih error member).append ..
  | @rejected texts program _ text error next earlier failed ih =>
    have length := earlier.length_eq
    refine List.forall_mem_append.mpr ⟨fun error member => (ih error member).append .., ?_⟩
    refine List.forall_mem_singleton.mpr ⟨?_, ?_, ?_⟩
    · rw [length]
      exact List.getElem?_concat_length
    · rw [length, List.take_left, ← earlier.session_eq, failed]
    · exact List.getElem?_concat_length

theorem lineAt {index : Nat} {text : String} (placed : texts[index]? = some text) :
    (∃ line, LineAt texts program index text line) ∨ ∃ error, ⟨index, text, error⟩ ∈ errors := by
  induction reads with
  | nil => cases placed
  | @accepted texts _ _ _ line _ earlier parsed ih =>
    rcases getElem?_concat.mp placed with old | ⟨rfl, rfl⟩
    · obtain ⟨line, lineAt⟩ | reported := ih old
      · exact .inl ⟨line, lineAt.append (List.getElem?_eq_some_iff.mp old).1 ..⟩
      · exact .inr reported
    · refine .inl ⟨line, ?_, ?_⟩
      · rw [List.take_left, ← earlier.session_eq, parsed]
      · rw [← earlier.length_eq]
        exact List.getElem?_concat_length
  | @rejected texts _ _ _ error _ earlier _ ih =>
    rcases getElem?_concat.mp placed with old | ⟨rfl, rfl⟩
    · obtain ⟨line, lineAt⟩ | ⟨error, reported⟩ := ih old
      · exact .inl ⟨line, lineAt.append (List.getElem?_eq_some_iff.mp old).1 ..⟩
      · exact .inr ⟨error, List.mem_append_left _ reported⟩
    · refine .inr ⟨error, List.mem_append_right _ ?_⟩
      rw [earlier.length_eq]
      exact List.mem_singleton_self _

theorem ordered : errors.Pairwise fun first second => first.line < second.line := by
  induction reads with
  | nil => exact .nil
  | accepted _ _ ih => exact ih
  | rejected earlier _ ih =>
    refine List.pairwise_append.mpr ⟨ih, List.pairwise_singleton _ _, ?_⟩
    intro first member second last
    obtain rfl := List.mem_singleton.mp last
    exact (earlier.errorAt first member).lt.trans_eq earlier.length_eq.symm

theorem mem_iff {index : Nat} {text : String} {error : ParseError}
    (placed : texts[index]? = some text) :
    ⟨index, text, error⟩ ∈ errors ↔
      ((Session.afterLines (texts.take index)).parseLine text).1 = .error error := by
  refine ⟨fun member => (reads.errorAt _ member).failed, fun failed => ?_⟩
  obtain ⟨line, lineAt⟩ | ⟨other, member⟩ := reads.lineAt placed
  · have parsed := lineAt.parsed
    rw [failed] at parsed
    cases parsed
  · obtain rfl : other = error :=
      Except.error.inj ((reads.errorAt _ member).failed.symm.trans failed)
    exact member

theorem placed_of_parsed {index : Nat} {text : String} {line : Line}
    (placed : texts[index]? = some text)
    (parsed : ((Session.afterLines (texts.take index)).parseLine text).1 = .ok line) :
    program.line? index = some line ∧ ∀ error ∈ errors, error.line ≠ index := by
  obtain ⟨other, lineAt⟩ | ⟨error, member⟩ := reads.lineAt placed
  · obtain rfl := Except.ok.inj (lineAt.parsed.symm.trans parsed)
    refine ⟨lineAt.placed, ?_⟩
    rintro error member rfl
    have errorAt := reads.errorAt error member
    obtain rfl := Option.some.inj (errorAt.text.symm.trans placed)
    have failed := errorAt.failed
    rw [parsed] at failed
    cases failed
  · have failed := (reads.errorAt _ member).failed
    rw [parsed] at failed
    cases failed

/-- The definition that the message of a rejected one names is an earlier line that was accepted. -/
theorem duplicate {error : SourceError} (member : error ∈ errors)
    (kind : error.error.cause.kind = .duplicateLabel) :
    ∃ name number definition,
      error.error.message =
        "Label '" ++ name ++ "' is already defined on line " ++ Numeral.decimal number ∧
      number < error.line ∧ (∀ other ∈ errors, other.line ≠ number) ∧
      program.line? number = some definition ∧ definition.statement.names = .label name := by
  have errorAt := reads.errorAt error member
  -- The program as it was when the line was rejected: there the label has a line.
  have before := reads_readLines (texts.take error.line)
  have failed := errorAt.failed
  rw [← before.session_eq] at failed
  obtain ⟨draft, name, id, number, -, -, named, defined, cause⟩ :=
    (Session.rejects_of_parseLine (Prod.ext failed rfl)).redefined_of_kind kind
  obtain ⟨definition, placed, label⟩ := before.sound.exists_definition named defined
  have earlier : number < error.line := by
    have bound := (List.getElem?_eq_some_iff.mp placed).1
    have length := before.length_eq
    rw [List.length_take] at length
    exact bound.trans_le (length.trans_le (Nat.min_le_left _ _))
  obtain ⟨text, textAt⟩ : ∃ text, texts[number]? = some text :=
    ⟨_, List.getElem?_eq_getElem (earlier.trans errorAt.lt)⟩
  have textBefore : (texts.take error.line)[number]? = some text := by
    rw [List.getElem?_take_of_lt earlier, textAt]
  obtain ⟨line, lineAt⟩ | ⟨other, reported⟩ := before.lineAt textBefore
  · obtain rfl := Option.some.inj (lineAt.placed.symm.trans placed)
    have parsed := lineAt.parsed
    rw [List.take_take, Nat.min_eq_left earlier.le] at parsed
    obtain ⟨whole, unreported⟩ := reads.placed_of_parsed textAt parsed
    refine ⟨name, number, line, ?_, earlier, unreported, whole, ?_⟩
    · rw [cause]
      rfl
    · rw [label]
      rfl
  · have blank := (before.errorAt _ reported).blank
    obtain rfl := Option.some.inj (blank.symm.trans placed)
    cases label

end Reads

/-- An empty line in the place of every reported one reads as the blank line that was put there. -/
theorem Reads.repaired (reads : Reads texts program errors) (numbers : List Nat)
    (reported : ∀ index < texts.length, index ∈ numbers ↔ ∃ error ∈ errors, error.line = index) :
    Reads (emptied "" numbers 0 texts) program [] := by
  induction reads with
  | nil => exact .nil
  | @accepted texts program errors text line next earlier parsed ih =>
    have before := ih fun index bound => reported index (by simp; omega)
    have kept : texts.length ∉ numbers := by
      rw [reported _ (by simp)]
      rintro ⟨error, member, same⟩
      exact (earlier.errorAt error member).lt.ne same
    rw [emptied_concat, Nat.zero_add, if_neg kept]
    exact before.accepted parsed
  | @rejected texts program errors text error next earlier failed ih =>
    have length := earlier.length_eq
    have before := ih fun index bound => by
      rw [reported index (by simp; omega)]
      simp [length, bound.ne']
    have dropped : texts.length ∈ numbers := by
      rw [reported _ (by simp)]
      exact ⟨_, List.mem_append_right _ (List.mem_singleton_self _), length⟩
    rw [emptied_concat, Nat.zero_add, if_pos dropped]
    have blank := before.accepted program.session.parseLine_empty
    rw [earlier.sound.next] at blank
    exact blank

/-- Without the blank line at its end a program is read as before. -/
theorem Reads.of_concat_empty {before : List String} (reads : Reads (before ++ [""]) program []) :
    ∃ shorter blank, Reads before shorter [] ∧ program.lines = shorter.lines ++ [blank] := by
  generalize whole : before ++ [""] = texts at reads
  generalize none : ([] : List SourceError) = errors at reads
  cases reads with
  | nil => simp at whole
  | accepted earlier parsed =>
    obtain ⟨rfl, -⟩ := List.append_inj' whole rfl
    subst none
    exact ⟨_, _, earlier, rfl⟩
  | rejected => simp at none

/-- The texts of the lines of a source. -/
def sourceTexts (source : String) : List String :=
  (splitLines source.toList).map String.ofList

/-- The errors of a source, none if it is read. -/
def sourceErrors (source : String) : List SourceError :=
  match ofSource source with
  | .ok _ => []
  | .error errors => errors

theorem reads_source (source : String) :
    Reads (sourceTexts source) (readLines (sourceTexts source)).1 (sourceErrors source) := by
  have same : sourceErrors source = (readLines (sourceTexts source)).2 := by
    unfold sourceErrors ofSource
    rw [← sourceTexts]
    cases readLines (sourceTexts source) with
    | mk program errors => cases errors <;> rfl
  rw [same]
  exact reads_readLines _

/-- The source with all reported lines made empty. -/
def repair (source : String) : String :=
  String.ofList (eraseLines ((sourceErrors source).map SourceError.line) 0 source.toList)

/-- The repaired source is read, with all other lines as they were. -/
theorem exists_repaired (source : String) :
    ∃ repaired, ofSource (repair source) = .ok repaired ∧
      ∀ index, (∀ error ∈ sourceErrors source, error.line ≠ index) →
        repaired.line? index = (readLines (sourceTexts source)).1.line? index := by
  have reads := reads_source source
  let numbers := (sourceErrors source).map SourceError.line
  have whole : Reads (emptied "" numbers 0 (sourceTexts source)) _ [] :=
    reads.repaired numbers (by simp [numbers])
  obtain ⟨gone, lines, last⟩ := splitLines_eraseLines numbers 0 source.toList
  have texts : sourceTexts (repair source) ++ gone.map String.ofList =
      emptied "" numbers 0 (sourceTexts source) := by
    have cut := congrArg (List.map String.ofList) lines
    rw [List.map_append, map_emptied] at cut
    rw [sourceTexts, repair, String.toList_ofList]
    exact cut
  rw [← texts] at whole
  rcases last with rfl | ⟨rfl, number, dropped, length⟩
  · rw [List.map_nil, List.append_nil] at whole
    exact ⟨_, ofSource_eq_ok.mpr whole.readLines_eq, fun _ _ => rfl⟩
  · obtain ⟨shorter, blank, before, same⟩ := whole.of_concat_empty
    refine ⟨shorter, ofSource_eq_ok.mpr before.readLines_eq, fun index kept => ?_⟩
    have apart : index ≠ number := by
      obtain ⟨error, member, rfl⟩ := List.mem_map.mp dropped
      exact (kept error member).symm
    have ends : shorter.length = number := by
      have lengths := congrArg List.length same
      rw [List.length_append, List.length_singleton] at lengths
      have read := reads.length_eq.trans (List.length_map _)
      simp only [Program.length] at *
      omega
    rw [line?, line?, same, List.getElem?_append]
    split
    · rfl
    · rename_i past
      rw [List.getElem?_eq_none (Nat.le_of_not_lt past), List.getElem?_eq_none]
      rw [List.length_singleton]
      simp only [Program.length] at ends
      omega

example : repair "a:\r\nmovq\r\na:\r\njmp a" = "a:\r\n\r\n\r\njmp a" := by
  decide +kernel

/-- What is reported of a source, and what is read of it. Each line is read by the session that the
lines before it leave behind. -/
structure Isolated (source : String) : Prop where
  repaired : ∃ repaired, ofSource (repair source) = .ok repaired ∧
    ∀ index, (∀ error ∈ sourceErrors source, error.line ≠ index) →
      repaired.line? index = (readLines (sourceTexts source)).1.line? index
  ordered : (sourceErrors source).Pairwise fun first second => first.line < second.line
  texts : ∀ error ∈ sourceErrors source, (sourceTexts source)[error.line]? = some error.text
  numbered : ∀ index ≤ (sourceTexts source).length,
    (Session.afterLines ((sourceTexts source).take index)).nextLine = index
  rejected : ∀ index text error, (sourceTexts source)[index]? = some text →
    (⟨index, text, error⟩ ∈ sourceErrors source ↔
      ((Session.afterLines ((sourceTexts source).take index)).parseLine text).1 = .error error)
  accepted : ∀ index text line, (sourceTexts source)[index]? = some text →
    ((Session.afterLines ((sourceTexts source).take index)).parseLine text).1 = .ok line →
      (readLines (sourceTexts source)).1.line? index = some line
  duplicates : ∀ error ∈ sourceErrors source, error.error.cause.kind = .duplicateLabel →
    ∃ name number definition,
      error.error.message =
        "Label '" ++ name ++ "' is already defined on line " ++ Numeral.decimal number ∧
      number < error.line ∧ (∀ other ∈ sourceErrors source, other.line ≠ number) ∧
      (readLines (sourceTexts source)).1.line? number = some definition ∧
      definition.statement.names = .label name

/-- The errors of a source are those of its lines one by one. With an empty line in the place of each
rejected one the source is read without an error, and its other lines as before. -/
theorem ofSource_isolated (source : String) : Isolated source := by
  have reads := reads_source source
  refine ⟨exists_repaired source, reads.ordered, ?_, ?_, ?_, ?_, ?_⟩
  · exact fun error member => (reads.errorAt error member).text
  · intro index bound
    have before := reads_readLines ((sourceTexts source).take index)
    rw [← before.session_eq, before.nextLine_eq, List.length_take, Nat.min_eq_left bound]
  · exact fun index text error placed => reads.mem_iff placed
  · exact fun index text line placed parsed => (reads.placed_of_parsed placed parsed).1
  · exact fun error member kind => reads.duplicate member kind

end Program

end AsmLab
