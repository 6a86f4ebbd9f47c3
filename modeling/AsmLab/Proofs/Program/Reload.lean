import AsmLab.Proofs.Program.Loading
import AsmLab.Proofs.Program.SourceLines

/-! Saving a program and reading it again. The program comes back unless one of its lines has a text
that reads as something else. -/
namespace AsmLab

/-- What saving is to keep of a line: its number, its statement with label names, and its comment. -/
def Line.saved (line : Line) : Nat × Statement String × Option String :=
  (line.number, line.statement.names, line.comment)

theorem Line.text_eq_of_meaning {line other : Line} (same : line.meaning = other.meaning) :
    line.text = other.text := by
  obtain ⟨names, comment⟩ := Prod.mk.inj same
  rw [text, text, names, comment]

theorem Line.reread_eq_self {line : Line} (same : line.reread.comment = line.comment) :
    line.reread = line := by
  obtain ⟨number, statement, comment, breakpoint⟩ := line
  exact congrArg (Line.mk number statement · breakpoint) same

namespace Program

/-- The reloaded program has the same lines, and its labels are defined on the same lines. -/
structure Agrees (program reloaded : Program) : Prop where
  lines : reloaded.lines.map Line.saved = program.lines.map Line.saved
  definitions : ∀ name, reloaded.definitionOf? name = program.definitionOf? name

/-- No comment breaks its line, and every displacement has a text that is read back. -/
structure Reloadable (program : Program) : Prop where
  unbroken : ∀ line ∈ program.lines, ∀ comment ∈ line.comment, '\n' ∉ comment.toList
  noReturn : ∀ line ∈ program.lines, ∀ comment ∈ line.comment,
    comment.toList.getLast? ≠ some '\r'
  spelled : ∀ line ∈ program.lines, line.statement.Spelled

variable {program reloaded : Program}

theorem Agrees.of_meanings (consistent : program.Consistent) (reloadedConsistent : reloaded.Consistent)
    (same : reloaded.lines.map Line.meaning = program.lines.map Line.meaning) :
    program.Agrees reloaded where
  lines := by
    apply List.ext_getElem?
    intro index
    have here := congrArg (fun meanings => meanings[index]?) same
    simp only [List.getElem?_map] at here ⊢
    cases found : program.lines[index]? with
    | none => simpa [found] using here
    | some line =>
      rw [found] at here
      obtain ⟨other, otherFound, sameMeaning⟩ := Option.map_eq_some_iff.mp here
      obtain ⟨names, comment⟩ := Prod.mk.inj sameMeaning
      have number : other.number = line.number :=
        (reloadedConsistent.numbers index other otherFound).trans
          (consistent.numbers index line found).symm
      rw [otherFound, Option.map_some, Option.map_some, Line.saved, Line.saved, number, names, comment]
  definitions name := by
    apply Option.ext
    intro index
    rw [reloadedConsistent.definitionOf?_eq_some_meaning, consistent.definitionOf?_eq_some_meaning,
      same]

theorem Agrees.meanings (agrees : program.Agrees reloaded) :
    reloaded.lines.map Line.meaning = program.lines.map Line.meaning := by
  have dropped := congrArg (List.map Prod.snd) agrees.lines
  rwa [List.map_map, List.map_map] at dropped

theorem map_text_of_meanings {lines others : List Line}
    (same : lines.map Line.meaning = others.map Line.meaning) :
    lines.map Line.text = others.map Line.text := by
  induction lines generalizing others with
  | nil =>
    obtain rfl := List.map_eq_nil_iff.mp same.symm
    rfl
  | cons line rest ih =>
    obtain ⟨other, otherRest, rfl, sameLine, sameRest⟩ := List.map_eq_cons_iff.mp same.symm
    rw [List.map_cons, List.map_cons, ih sameRest.symm, Line.text_eq_of_meaning sameLine]

theorem Agrees.toSource_eq (agrees : program.Agrees reloaded) :
    reloaded.toSource = program.toSource := by
  have texts := congrArg (List.map (· ++ "\n")) (map_text_of_meanings agrees.meanings)
  rw [List.map_map, List.map_map] at texts
  exact congrArg String.join texts

theorem ofSource_eq_ok {source : String} :
    ofSource source = .ok program ↔
      readLines ((splitLines source.toList).map String.ofList) = (program, []) := by
  unfold ofSource
  split
  · rename_i other read
    rw [read]
    simp
  · rename_i other errors failed
    simpa [failed] using fun _ => errors

/-- The texts that are read from a saved program without line feeds in its comments. -/
theorem map_splitLines_toSource (sound : program.Sound)
    (unbroken : ∀ line ∈ program.lines, '\n' ∉ line.text.toList) :
    (splitLines program.toSource.toList).map String.ofList =
      program.lines.map fun line => line.reread.text := by
  rw [toList_toSource, splitLines_flatMap (by simpa using unbroken), List.map_map, List.map_map]
  apply List.map_congr_left
  intro line member
  simp only [Function.comp_apply, Line.withoutReturn_text (sound.wellFormed line member),
    String.ofList_toList]

theorem Sound.reload (sound : program.Sound) (reloadable : program.Reloadable) :
    ∃ reloaded, ofSource program.toSource = .ok reloaded ∧ program.Agrees reloaded := by
  have unbroken : ∀ line ∈ program.lines, '\n' ∉ line.text.toList := by
    intro line member broken
    obtain ⟨comment, spoken, feed⟩ := (Line.feed_mem_text (sound.wellFormed line member)).mp broken
    exact reloadable.unbroken line member comment spoken feed
  have texts := map_splitLines_toSource sound unbroken
  have reads : (program.lines.map fun line => line.reread.text).map Source.meaning? =
      (program.lines.map Line.meaning).map some := by
    rw [List.map_map, List.map_map]
    apply List.map_congr_left
    intro line member
    have whole := Line.reread_eq_self (Line.reread_comment.mpr (reloadable.noReturn line member))
    simp only [Function.comp_apply, whole]
    exact (Line.meaning?_text (sound.wellFormed line member)).1 (reloadable.spelled line member)
  obtain ⟨reloaded, read⟩ := readLines_of_meanings reads sound.definedNames_nodup
  have load := ofSource_eq_ok.mpr (texts ▸ read)
  refine ⟨reloaded, load, .of_meanings sound.toConsistent (ofSource_sound load).toConsistent ?_⟩
  exact List.map_injective_iff.mpr (Option.some_injective _)
    ((readLines_meanings read).symm.trans reads)

theorem Sound.reloadable (sound : program.Sound)
    (reload : ofSource program.toSource = .ok reloaded) (agrees : program.Agrees reloaded) :
    program.Reloadable := by
  have read := ofSource_eq_ok.mp reload
  have meanings := readLines_meanings read
  have unbroken : ∀ line ∈ program.lines, '\n' ∉ line.text.toList := by
    have lengths := congrArg List.length meanings
    rw [agrees.meanings, toList_toSource] at lengths
    have same : (splitLines ((program.lines.map fun line => line.text.toList).flatMap
        (· ++ ['\n']))).length = (program.lines.map fun line => line.text.toList).length := by
      simpa using lengths
    simpa using unbroken_of_length same
  rw [map_splitLines_toSource sound unbroken, agrees.meanings, List.map_map, List.map_map] at meanings
  have reads (line : Line) (member : line ∈ program.lines) :
      Source.meaning? line.reread.text = some line.meaning :=
    List.map_inj_left.mp meanings line member
  have comes (line : Line) (member : line ∈ program.lines) :
      line.statement.Spelled ∧ line.reread.comment = line.comment := by
    have text := Line.meaning?_text (Line.reread_wellFormed (sound.wellFormed line member))
    by_cases spelled : line.statement.Spelled
    · have same := Option.some.inj ((text.1 spelled).symm.trans (reads line member))
      exact ⟨spelled, congrArg Prod.snd same⟩
    · have nothing := (text.2 spelled).symm.trans (reads line member)
      cases nothing
  refine ⟨?_, ?_, fun line member => (comes line member).1⟩
  · intro line member comment spoken feed
    exact unbroken line member
      ((Line.feed_mem_text (sound.wellFormed line member)).mpr ⟨comment, spoken, feed⟩)
  · intro line member
    exact Line.reread_comment.mp (comes line member).2

/-- A program that edits lead to is saved and read again with the same lines and label definitions
exactly if no comment has a line feed in it or a carriage return at its end and no displacement is
-2^63. Its text then stays the same. -/
theorem Reachable.reload_iff (reached : Reachable program) :
    ((∃ reloaded, ofSource program.toSource = .ok reloaded ∧ program.Agrees reloaded) ↔
        program.Reloadable) ∧
      (program.Reloadable →
        ∃ reloaded, ofSource program.toSource = .ok reloaded ∧
          reloaded.toSource = program.toSource) := by
  have sound := reached.sound
  refine ⟨⟨fun ⟨reloaded, reload, agrees⟩ => sound.reloadable reload agrees, sound.reload⟩, ?_⟩
  intro reloadable
  obtain ⟨reloaded, reload, agrees⟩ := sound.reload reloadable
  exact ⟨reloaded, reload, agrees.toSource_eq⟩

/-- A commented label and a jump to it, saved and read again. -/
theorem reload_loop :
    let program := (empty.edit (.push "loop: # start")).edit (.push "JMP  loop")
    program.Reachable ∧ program.Reloadable ∧
      ∃ reloaded, ofSource program.toSource = .ok reloaded ∧ program.Agrees reloaded := by
  intro program
  have reached : program.Reachable := .edited (.edited .start _) _
  have lines : program.lines =
      [⟨0, .label ⟨⟨0⟩, "loop"⟩, some " start", false⟩,
        ⟨1, .instruction ⟨.uniform .jmp .byte, .unary (.label ⟨⟨0⟩, "loop"⟩)⟩, none, false⟩] := by
    decide +kernel
  have reloadable : program.Reloadable := by
    constructor <;> simp [lines, Statement.Spelled, Statement.operands, Operands.toList,
      Operand.IsLowest]
  exact ⟨reached, reloadable, reached.reload_iff.1.mpr reloadable⟩

end Program

end AsmLab
