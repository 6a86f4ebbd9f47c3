import AsmLab.Proofs.Source.BytewiseLines
import AsmLab.Report.State

/-! The columns of an error. They belong to a range of bytes that starts and stops between characters of
the line, and what is underlined for the error is just that range. -/
namespace AsmLab

open Source (ParseError)

theorem Report.underline_eq {error : SourceError}
    (ordered : error.error.span.start ≤ error.error.span.stop)
    (inside : error.error.span.stop ≤ error.text.length) :
    underline error =
      (error.error.span.start, max 1 (error.error.span.stop - error.error.span.start)) := by
  have starts := Nat.min_eq_left (ordered.trans inside)
  simp only [underline, starts, Nat.min_eq_left inside, Nat.max_eq_right ordered]

namespace Source

variable {text : String} {counted error : ParseError}

theorem columnAt?_le {chars : List Char} {offset column : Nat}
    (found : columnAt? chars offset = some column) : column ≤ chars.length := by
  obtain ⟨before, after, rfl, _, rfl⟩ := exists_of_columnAt? found
  simp

theorem isValid_of_columnAt? {offset column : Nat}
    (found : columnAt? text.toList offset = some column) :
    (⟨offset⟩ : String.Pos.Raw).IsValid text :=
  (columnAt?_isSome_iff text offset).mp (Option.isSome_of_eq_some found)

/-- The error is about an index or a scale that is empty. -/
def ParseError.IsAboutEmptyPart (line : List Char) (error : ParseError) : Prop :=
  error.cause.isAboutPart = true ∧
    ∃ part : Fragment, part.IsPart line ∧ part.chars = [] ∧ error.span = part.span

/-- An error of a line, and the same error as the reader of bytes reports it. -/
structure PointsInto (text : String) (counted error : ParseError) : Prop where
  columns : error = Bytewise.toColumns text counted
  startValid : (⟨counted.span.start⟩ : String.Pos.Raw).IsValid text
  stopValid : (⟨counted.span.stop⟩ : String.Pos.Raw).IsValid text
  ordered : error.span.start ≤ error.span.stop
  inside : error.span.stop ≤ text.length
  visible : ¬ error.IsAboutEmptyPart text.toList → error.span.start < error.span.stop
  empty : error.IsAboutEmptyPart text.toList →
    error.cause.kind = .invalidMemoryOperand ∧ error.span.start = error.span.stop
  part : error.cause.isAboutPart = true →
    ∃ part : Fragment, part.IsPart text.toList ∧ error.span = part.span
  underlined : ∀ line, Report.underline ⟨line, text, error⟩ =
    (error.span.start, max 1 (error.span.stop - error.span.start))

theorem PointsAt.columns (points : PointsAt text counted error) :
    error = Bytewise.toColumns text counted := by
  obtain ⟨cause, start, stop⟩ := error
  obtain ⟨rfl, starts, stops, _, _⟩ := points
  simp only [Bytewise.toColumns, starts, stops, Option.getD_some]

theorem PointsAt.ordered (points : PointsAt text counted error) :
    error.span.start ≤ error.span.stop := by
  cases about : error.cause.isAboutPart with
  | false => exact Nat.le_of_lt (points.visible about)
  | true =>
    obtain ⟨part, _, span⟩ := points.part about
    rw [span]
    exact Nat.le_add_right _ _

theorem PointsAt.visible_of_not_empty (points : PointsAt text counted error)
    (visible : ¬ error.IsAboutEmptyPart text.toList) : error.span.start < error.span.stop := by
  cases about : error.cause.isAboutPart with
  | false => exact points.visible about
  | true =>
    obtain ⟨part, isPart, span⟩ := points.part about
    have nonempty : part.chars ≠ [] := fun empty => visible ⟨about, part, isPart, empty, span⟩
    rw [span]
    exact Nat.lt_add_of_pos_right (List.length_pos_iff.mpr nonempty)

theorem PointsAt.pointsInto (points : PointsAt text counted error) :
    PointsInto text counted error := by
  have inside : error.span.stop ≤ text.length := columnAt?_le points.stop
  refine
    { columns := points.columns
      startValid := isValid_of_columnAt? points.start
      stopValid := isValid_of_columnAt? points.stop
      ordered := points.ordered
      inside := inside
      visible := points.visible_of_not_empty
      empty := ?_
      part := points.part
      underlined := fun _ => Report.underline_eq points.ordered inside }
  rintro ⟨about, part, _, empty, span⟩
  refine ⟨ErrorCause.kind_of_isAboutPart about, ?_⟩
  rw [span, Fragment.span, Fragment.stop, empty, List.length_nil, Nat.add_zero]

namespace Session

/-- Reading by bytes never cuts inside a character or past the end of the line, and comes to what
reading by characters comes to. The columns of an error are told from a range of bytes between
characters. Overflow is left out: the lowest displacement is its own negative here, where a build that
checks its arithmetic stops. -/
theorem parseLine_pointsInto (session : Session) (text : String) :
    match session.parseLine text with
    | (.ok line, next) => Bytewise.parseLine session text = (.ok line, next)
    | (.error error, next) => ∃ counted,
        Bytewise.parseLine session text = (.error (.rejected counted), next) ∧
          PointsInto text counted error := by
  obtain ⟨sessions, mirrors⟩ := parseLine_mirrors session text
  cases counted : Bytewise.parseLine session text with
  | mk first _ =>
    cases read : session.parseLine text with
    | mk second next =>
      rw [counted, read] at sessions mirrors
      obtain rfl : _ = next := sessions
      cases mirrors with
      | ok same =>
        cases same
        rfl
      | rejected points => exact ⟨_, rfl, points.pointsInto⟩

/-- An empty index leaves no column to point at. -/
example : (empty.parseLine "incq (%rax, )").1 =
    .error ⟨.missingAddressRegister .index, ⟨12, 12⟩⟩ := by
  decide +kernel

end Session

end Source

end AsmLab
