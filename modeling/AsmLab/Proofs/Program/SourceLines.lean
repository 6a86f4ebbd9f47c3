import AsmLab.Program
import AsmLab.Proofs.Source.CanonicalText

/-! The lines of a saved program, cut out of its text again. A line feed inside of a line makes one
line more, and a carriage return at the end of a line is lost. -/
namespace AsmLab

namespace Program

/-- The characters of a line as they are read, without a carriage return at the end. -/
def withoutReturn (chars : List Char) : List Char :=
  if chars.getLast? = some '\r' then chars.dropLast else chars

theorem withoutReturn_eq_self {chars : List Char} :
    withoutReturn chars = chars ↔ chars.getLast? ≠ some '\r' := by
  unfold withoutReturn
  split
  · rename_i last
    have nonempty : chars ≠ [] := by
      rintro rfl
      cases last
    refine ⟨fun same => ?_, fun other => absurd last other⟩
    have shorter := congrArg List.length same
    have positive := List.length_pos_iff.mpr nonempty
    rw [List.length_dropLast] at shorter
    omega
  · rename_i other
    exact ⟨fun _ => other, fun _ => rfl⟩

theorem withoutReturn_cons_cons (first second : Char) (rest : List Char) :
    withoutReturn (first :: second :: rest) = first :: withoutReturn (second :: rest) := by
  unfold withoutReturn
  rw [List.getLast?_cons_cons]
  split <;> rfl

theorem withoutReturn_append {front : List Char} {mark : Char} (visible : mark ≠ '\r')
    (chars : List Char) :
    withoutReturn (front ++ mark :: chars) = front ++ mark :: withoutReturn chars := by
  induction front with
  | nil =>
    cases chars with
    | nil => simp [withoutReturn, visible]
    | cons head tail => exact withoutReturn_cons_cons mark head tail
  | cons head tail ih =>
    cases tail with
    | nil => exact (withoutReturn_cons_cons head mark chars).trans (congrArg (head :: ·) ih)
    | cons next rest =>
      rw [List.cons_append, List.cons_append, withoutReturn_cons_cons, ← List.cons_append, ih]
      rfl

theorem splitLines_cons {char : Char} {rest : List Char} (visible : char ≠ '\n')
    (unpaired : ¬ (char = '\r' ∧ rest.head? = some '\n')) :
    splitLines (char :: rest) = extendFirst char (splitLines rest) := by
  rw [splitLines.eq_def]
  split
  · cases ‹_›
  · cases ‹_›
    exact absurd rfl visible
  · cases ‹_›
    exact absurd ⟨rfl, rfl⟩ unpaired
  · cases ‹_›
    rfl

/-- A line without a line feed is cut off at the line feed behind it. -/
theorem splitLines_append {chars : List Char} (rest : List Char) (unbroken : '\n' ∉ chars) :
    splitLines (chars ++ '\n' :: rest) = withoutReturn chars :: splitLines rest := by
  induction chars with
  | nil => rfl
  | cons head tail ih =>
    have visible : head ≠ '\n' := fun same => unbroken (same ▸ List.mem_cons_self)
    have unbrokenTail : '\n' ∉ tail := fun member => unbroken (List.mem_cons_of_mem head member)
    by_cases paired : head = '\r' ∧ tail = []
    · obtain ⟨rfl, rfl⟩ := paired
      rfl
    · have unpaired : ¬ (head = '\r' ∧ (tail ++ '\n' :: rest).head? = some '\n') := by
        rintro ⟨same, first⟩
        cases tail with
        | nil => exact paired ⟨same, rfl⟩
        | cons next more => exact unbrokenTail (List.mem_of_head? first)
      rw [List.cons_append, splitLines_cons visible unpaired, ih unbrokenTail, extendFirst]
      cases tail with
      | nil =>
        have plain : head ≠ '\r' := fun same => paired ⟨same, rfl⟩
        simp [withoutReturn, plain]
      | cons next more => rw [withoutReturn_cons_cons]

theorem length_splitLines_cons (char : Char) (rest : List Char) :
    (splitLines (char :: rest)).length =
      if char = '\n' then (splitLines rest).length + 1 else max 1 (splitLines rest).length := by
  by_cases feed : char = '\n'
  · subst feed
    simp [splitLines]
  · rw [if_neg feed]
    by_cases paired : char = '\r' ∧ rest.head? = some '\n'
    · obtain ⟨rfl, first⟩ := paired
      obtain ⟨more, rfl⟩ := List.head?_eq_some_iff.mp first
      simp [splitLines]
    · rw [splitLines_cons feed paired]
      cases splitLines rest <;> simp [extendFirst]

theorem length_splitLines_append (chars rest : List Char) :
    (splitLines (chars ++ '\n' :: rest)).length =
      chars.count '\n' + 1 + (splitLines rest).length := by
  induction chars with
  | nil => simp [splitLines, Nat.add_comm]
  | cons head tail ih =>
    rw [List.cons_append, length_splitLines_cons, ih, List.count_cons]
    by_cases feed : head = '\n'
    · simp [feed]
      omega
    · simp [feed]
      omega

theorem splitLines_flatMap {texts : List (List Char)} (unbroken : ∀ text ∈ texts, '\n' ∉ text) :
    splitLines (texts.flatMap (· ++ ['\n'])) = texts.map withoutReturn := by
  induction texts with
  | nil => rfl
  | cons text rest ih =>
    rw [List.flatMap_cons, List.append_assoc, List.singleton_append,
      splitLines_append _ (unbroken text List.mem_cons_self), List.map_cons,
      ih fun other member => unbroken other (List.mem_cons_of_mem text member)]

theorem length_le_splitLines (texts : List (List Char)) :
    texts.length ≤ (splitLines (texts.flatMap (· ++ ['\n']))).length := by
  induction texts with
  | nil => exact Nat.zero_le _
  | cons text rest ih =>
    rw [List.flatMap_cons, List.append_assoc, List.singleton_append, length_splitLines_append,
      List.length_cons]
    omega

/-- If there are as many lines as there were texts, no text has a line feed. -/
theorem unbroken_of_length {texts : List (List Char)}
    (same : (splitLines (texts.flatMap (· ++ ['\n']))).length = texts.length) :
    ∀ text ∈ texts, '\n' ∉ text := by
  induction texts with
  | nil => simp
  | cons text rest ih =>
    rw [List.flatMap_cons, List.append_assoc, List.singleton_append, length_splitLines_append,
      List.length_cons] at same
    have least := length_le_splitLines rest
    have none : text.count '\n' = 0 := by omega
    intro other member
    rcases List.mem_cons.mp member with rfl | listed
    · exact List.count_eq_zero.mp none
    · exact ih (by omega) other listed

theorem toList_toSource (program : Program) :
    program.toSource.toList =
      (program.lines.map fun line => line.text.toList).flatMap (· ++ ['\n']) := by
  simp [toSource, String.toList_join, List.flatMap_map]

end Program

/-- The text of a statement has no line end in it. -/
theorem Statement.lineEnd_not_mem_text {statement : Statement String}
    (wellFormed : statement.WellFormed) :
    '\n' ∉ statement.text.toList ∧ '\r' ∉ statement.text.toList := by
  by_cases visible : statement ≠ .blank ∧ statement ≠ .comment
  · have letters := (Statement.isBodyText wellFormed visible).letters
    exact ⟨Source.not_mem_of_forall '\n' letters (by decide),
      Source.not_mem_of_forall '\r' letters (by decide)⟩
  · cases statement with
    | blank => simp [text]
    | comment => simp [text]
    | label _ => simp at visible
    | instruction _ => simp at visible

namespace Line

theorem toList_text (line : Line) :
    line.text.toList = line.statement.names.text.toList ++ line.comment.elim [] fun comment =>
      (if line.statement.names.text = "" then [] else [' ']) ++ '#' :: comment.toList := by
  unfold text
  cases line.comment with
  | none => simp
  | some comment => by_cases empty : line.statement.names.text = "" <;> simp [empty]

/-- The line with the comment that is read from its text. -/
def reread (line : Line) : Line :=
  { line with
    comment := line.comment.map fun comment =>
      String.ofList (Program.withoutReturn comment.toList) }

variable {line : Line}

theorem withoutReturn_text (wellFormed : line.WellFormed) :
    Program.withoutReturn line.text.toList = line.reread.text.toList := by
  have noReturn := (Statement.lineEnd_not_mem_text wellFormed.statement).2
  rw [toList_text, toList_text]
  cases spoken : line.comment with
  | none =>
    simp only [reread, spoken, Option.elim_none, Option.map_none, List.append_nil]
    exact Program.withoutReturn_eq_self.mpr fun last => noReturn (List.mem_of_getLast? last)
  | some comment =>
    simp only [reread, spoken, Option.elim_some, Option.map_some, String.toList_ofList,
      ← List.append_assoc]
    exact Program.withoutReturn_append (by decide) comment.toList

theorem feed_mem_text (wellFormed : line.WellFormed) :
    '\n' ∈ line.text.toList ↔ ∃ comment ∈ line.comment, '\n' ∈ comment.toList := by
  have unbroken := (Statement.lineEnd_not_mem_text wellFormed.statement).1
  rw [toList_text]
  cases line.comment with
  | none => simpa using unbroken
  | some comment => by_cases empty : line.statement.names.text = "" <;> simp [empty, unbroken]

theorem reread_wellFormed (wellFormed : line.WellFormed) : line.reread.WellFormed := by
  refine ⟨wellFormed.statement, ?_⟩
  have taken := wellFormed.comment
  change line.statement.names.TakesComment (line.comment.map _)
  cases named : line.statement.names <;> simp_all [Statement.TakesComment]

/-- A line is read with its own comment exactly if that does not end in a carriage return. -/
theorem reread_comment :
    line.reread.comment = line.comment ↔
      ∀ comment ∈ line.comment, comment.toList.getLast? ≠ some '\r' := by
  cases spoken : line.comment with
  | none => simp [reread, spoken]
  | some comment =>
    rw [reread, spoken, Option.map_some, Option.some.injEq, ← String.toList_inj,
      String.toList_ofList, Program.withoutReturn_eq_self]
    simp

end Line

end AsmLab
