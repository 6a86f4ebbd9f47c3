import AsmLab.Proofs.Source.CanonicalText
import AsmLab.Proofs.Source.Resolution

/-! Reading the canonical text of an accepted line again. -/
namespace AsmLab

theorem Operand.isLowest_map {Name Label : Type} {refer : Name → Label} {operand : Operand Name} :
    (operand.map refer).IsLowest ↔ operand.IsLowest := by
  cases operand <;> rfl

theorem Statement.operands_map {Name Label : Type} {refer : Name → Label}
    {statement : Statement Name} :
    (statement.map refer).operands = statement.operands.map (Operand.map refer) := by
  cases statement with
  | blank => rfl
  | comment => rfl
  | label _ => rfl
  | instruction body =>
    obtain ⟨mnemonic, operands⟩ := body
    cases operands <;> rfl

theorem Statement.spelled_names {statement : Statement LabelRef} :
    statement.names.Spelled ↔ statement.Spelled := by
  simp [Spelled, names, operands_map, Operand.isLowest_map]

namespace Source.Session

variable {session next : Session} {text : String} {line : Line}

/-- An accepted line is read back from its text, in the session that accepted it, with the same
number, label identifiers and comment and to the same next session, exactly if it mentions no
displacement of -2^63. The printed text of that displacement is rejected. -/
theorem parseLine_text (accepted : session.parseLine text = (.ok line, next)) :
    (session.parseLine line.text = (.ok line, next) ↔ line.statement.Spelled) ∧
      (¬ line.statement.Spelled →
        ∃ span, session.parseLine line.text = (.error ⟨.invalidDisplacement, span⟩, session)) := by
  obtain ⟨keyword, back⟩ := readDraft_text (parseLine_ok accepted).wellFormed
  rw [Statement.spelled_names] at back
  have rejected : ¬ line.statement.Spelled →
      ∃ span, session.parseLine line.text = (.error ⟨.invalidDisplacement, span⟩, session) := by
    intro unspelled
    obtain ⟨span, failed⟩ := back.rejected unspelled
    exact ⟨span, by rw [parseLine, failed]⟩
  refine ⟨⟨fun again => ?_, fun spelled => parseLine_of_draft accepted (back.accepted spelled)⟩,
    rejected⟩
  by_contra unspelled
  obtain ⟨span, failed⟩ := rejected unspelled
  rw [failed] at again
  cases again

/-- A line that comes back, and one that does not, both read by an empty session. -/
theorem parseLine_text_spill_and_lowest :
    let spill : Line := ⟨0, .instruction ⟨.uniform .mov .quad, .binary (.immediate ⟨15, .hex 2⟩)
      (.memory ⟨-8, .low .rbp .quad, some (.low .rcx .quad), 4⟩)⟩, some " spill", false⟩
    let lowest : Line := ⟨0, .instruction ⟨.uniform .inc .quad,
      .unary (.memory ⟨0x8000000000000000, .low .rax .quad, none, 1⟩)⟩, none, false⟩
    (empty.parseLine "MOVQ $0x0F,-0x8( %rbp , %rcx,4 )# spill" = (.ok spill, ⟨1, .empty⟩) ∧
        empty.parseLine spill.text = (.ok spill, ⟨1, .empty⟩)) ∧
      empty.parseLine "incq 0x-8000000000000000(%rax)" = (.ok lowest, ⟨1, .empty⟩) ∧
        ∃ span, empty.parseLine lowest.text = (.error ⟨.invalidDisplacement, span⟩, empty) := by
  intro spill lowest
  have readSpill : empty.parseLine "MOVQ $0x0F,-0x8( %rbp , %rcx,4 )# spill" =
      (.ok spill, ⟨1, .empty⟩) := by decide +kernel
  have readLowest : empty.parseLine "incq 0x-8000000000000000(%rax)" =
      (.ok lowest, ⟨1, .empty⟩) := by decide +kernel
  have spelled : spill.statement.Spelled := by
    simp [spill, Statement.Spelled, Statement.operands, Operands.toList, Operand.IsLowest]
    decide
  have unspelled : ¬ lowest.statement.Spelled := by
    simp [lowest, Statement.Spelled, Statement.operands, Operands.toList, Operand.IsLowest]
    decide
  exact ⟨⟨readSpill, (parseLine_text readSpill).1.mpr spelled⟩, readLowest,
    (parseLine_text readLowest).2 unspelled⟩

/-- Not every accepted line comes back from its text. -/
theorem not_parseLine_text :
    ¬ ∀ (session next : Session) (text : String) (line : Line),
      session.parseLine text = (.ok line, next) → session.parseLine line.text = (.ok line, next) := by
  intro all
  have read : empty.parseLine "incq 0x-8000000000000000(%rax)" =
      (.ok ⟨0, .instruction ⟨.uniform .inc .quad,
        .unary (.memory ⟨0x8000000000000000, .low .rax .quad, none, 1⟩)⟩, none, false⟩,
        ⟨1, .empty⟩) := by decide +kernel
  have again := all empty ⟨1, .empty⟩ _ _ read
  revert again
  decide +kernel

end Source.Session

end AsmLab
