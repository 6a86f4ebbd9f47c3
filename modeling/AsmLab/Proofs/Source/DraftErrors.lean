import AsmLab.Proofs.Source.Resolution

/-! Why a line is rejected. What it says on its own is rejected for its own sake; only the session that
looks its labels up rejects it for what was read before, and only as the second definition of a
label. -/
namespace AsmLab.Source

/-- A result that is never the rejection of a second definition. -/
def Intrinsic {Accepted : Type} (result : Except ParseError Accepted) : Prop :=
  ∀ error, result = .error error → error.cause.kind ≠ .duplicateLabel

namespace Intrinsic

variable {First Second : Type}

theorem ok {accepted : First} : Intrinsic (.ok accepted) := by
  rintro _ ⟨⟩

theorem error {cause : ErrorCause} {span : Span} (other : cause.kind ≠ .duplicateLabel) :
    Intrinsic (.error ⟨cause, span⟩ : Except ParseError First) := by
  rintro _ ⟨⟩
  exact other

theorem reject {fragment : Fragment} {cause : ErrorCause} (other : cause.kind ≠ .duplicateLabel) :
    Intrinsic (Source.reject fragment cause : Except ParseError First) :=
  error other

theorem bind {first : Except ParseError First} {next : First → Except ParseError Second}
    (intrinsic : Intrinsic first) (later : ∀ value, Intrinsic (next value)) :
    Intrinsic (first >>= next) := by
  cases first with
  | error failure =>
    rintro _ ⟨⟩
    exact intrinsic failure rfl
  | ok value => exact later value

end Intrinsic

theorem readRegister_intrinsic (piece : Fragment) : Intrinsic (readRegister piece) := by
  unfold readRegister
  simp only
  split
  · exact .error nofun
  · split
    · exact .ok
    · exact .error nofun

theorem readRegisterOperand_intrinsic (slot : Slot) (piece : Fragment) :
    Intrinsic (readRegisterOperand slot piece) := by
  refine .bind (readRegister_intrinsic piece) fun ⟨register, rest⟩ => ?_
  simp only
  split
  · exact .reject nofun
  · split
    · exact .reject nofun
    · split
      · exact .reject nofun
      · exact .ok

theorem readLabelOperand_intrinsic (slot : Slot) (piece : Fragment) :
    Intrinsic (readLabelOperand slot piece) := by
  unfold readLabelOperand
  simp only
  split
  · exact .reject nofun
  · split
    · exact .ok
    · split
      · exact .reject nofun
      · exact .reject nofun

theorem readConstantOperand_intrinsic (slot : Slot) (piece : Fragment) :
    Intrinsic (readConstantOperand slot piece) := by
  unfold readConstantOperand
  split
  · exact .reject nofun
  · split
    · exact .ok
    · rename_i cause failed
      exact .reject (by rcases readImmediate_kind failed with kind | kind <;> simp [kind])

theorem readAddressRegister_intrinsic (role : AddressRole) (context part : Fragment) :
    Intrinsic (readAddressRegister role context part) := by
  unfold readAddressRegister
  split
  · exact .reject nofun
  · refine .bind (readRegister_intrinsic part) fun ⟨register, rest⟩ => ?_
    simp only
    split
    · exact .reject nofun
    · split
      · exact .reject nofun
      · exact .ok

theorem readScale_intrinsic (part : Fragment) : Intrinsic (readScale part) := by
  unfold readScale
  split
  · exact .ok
  · exact .ok
  · exact .ok
  · exact .ok
  · exact .reject nofun

theorem readAddress_intrinsic (piece outer : Fragment) (displacement : BitVec 64)
    (parts : List Fragment) : Intrinsic (readAddress piece outer displacement parts) := by
  unfold readAddress
  split
  · exact .reject nofun
  · exact .bind (readAddressRegister_intrinsic _ _ _) fun _ => .ok
  · exact .bind (readAddressRegister_intrinsic _ _ _) fun _ =>
      .bind (readAddressRegister_intrinsic _ _ _) fun _ => .ok
  · exact .bind (readAddressRegister_intrinsic _ _ _) fun _ =>
      .bind (readAddressRegister_intrinsic _ _ _) fun _ =>
        .bind (readScale_intrinsic _) fun _ => .ok
  · exact .reject nofun

theorem readMemoryOperand_intrinsic (slot : Slot) (piece : Fragment) :
    Intrinsic (readMemoryOperand slot piece) := by
  unfold readMemoryOperand
  split
  · exact .reject nofun
  · split
    · exact .reject nofun
    · simp only
      split
      · exact .reject nofun
      · split
        · exact .reject nofun
        · split
          · exact .bind (readAddress_intrinsic _ _ _ _) fun _ => .ok
          · split
            · exact .reject nofun
            · exact .bind (readAddress_intrinsic _ _ _ _) fun _ => .ok

theorem readOperand_intrinsic (slot : Slot) (piece : Fragment) :
    Intrinsic (readOperand slot piece) := by
  unfold readOperand
  split
  · exact readMemoryOperand_intrinsic slot piece
  · split
    · exact readRegisterOperand_intrinsic slot piece
    · exact readConstantOperand_intrinsic slot piece
    · split
      · exact readLabelOperand_intrinsic slot piece
      · exact .reject nofun
    · exact .reject nofun

theorem trimPieces_intrinsic (pieces : List Fragment) : Intrinsic (trimPieces pieces) := by
  fun_induction trimPieces pieces with
  | case1 => exact .ok
  | case2 => exact .error nofun
  | case3 => exact .ok
  | case4 => exact .error nofun
  | case5 _ _ _ _ later => exact .bind later fun _ => .ok

theorem operandPieces_intrinsic (rest : Fragment) : Intrinsic (operandPieces rest) := by
  unfold operandPieces
  split
  · exact .ok
  · exact trimPieces_intrinsic _

theorem decodeMnemonic_intrinsic (word : Fragment) (pieces : List Fragment) :
    Intrinsic (decodeMnemonic word pieces) := by
  unfold decodeMnemonic
  simp only
  split
  · exact .ok
  · rename_i reason _
    apply Intrinsic.reject
    cases reason <;> nofun

theorem readOperands_intrinsic (mnemonic : Mnemonic) (word : Fragment) (pieces : List Fragment) :
    Intrinsic (readOperands mnemonic word pieces) := by
  unfold readOperands
  split
  · exact .ok
  · exact .bind (readOperand_intrinsic _ _) fun _ => .ok
  · split
    · exact .reject nofun
    · refine .bind (readOperand_intrinsic _ _) fun source => ?_
      refine .bind (readOperand_intrinsic _ _) fun destination => ?_
      split
      · exact .reject nofun
      · exact .ok
  · exact .error nofun

theorem readInstruction_intrinsic (word rest : Fragment) :
    Intrinsic (readInstruction word rest) :=
  .bind (operandPieces_intrinsic rest) fun pieces =>
    .bind (decodeMnemonic_intrinsic word pieces) fun mnemonic =>
      .bind (readOperands_intrinsic mnemonic word pieces) fun _ => .ok

theorem readLabelDefinition_intrinsic (word rest : Fragment) :
    Intrinsic (readLabelDefinition word rest) := by
  unfold readLabelDefinition
  split
  · exact .reject nofun
  · split
    · exact .reject nofun
    · exact .ok

theorem readStatement_intrinsic (body : Fragment) : Intrinsic (readStatement body) := by
  unfold readStatement
  split
  · exact .reject nofun
  · simp only
    split
    · exact readLabelDefinition_intrinsic _ _
    · split
      · exact .reject nofun
      · exact readInstruction_intrinsic _ _

theorem readDraft_intrinsic (text : String) : Intrinsic (readDraft text) := by
  unfold readDraft
  simp only
  split
  · exact .ok
  · exact .bind (readStatement_intrinsic _) fun _ => .ok

end AsmLab.Source
