import AsmLab.Proofs.Source.Acceptance
import AsmLab.Proofs.Source.ByteRanges

/-! Reading a line by its bytes comes to the same as reading it by its characters: no reader crashes,
each accepts the same and rejects for the same cause, and the bytes of an error are those of the
characters that it is about. -/
namespace AsmLab.Source

/-- Whether an error is about an index or a scale, of which there may be nothing to point at. -/
def ErrorCause.isAboutPart : ErrorCause → Bool
  | .missingAddressRegister .index | .invalidScale => true
  | _ => false

theorem ErrorCause.kind_of_isAboutPart {cause : ErrorCause} (about : cause.isAboutPart = true) :
    cause.kind = .invalidMemoryOperand := by
  unfold isAboutPart at about
  split at about
  · rfl
  · rfl
  · cases about

/-- An error that counts bytes and the same error that counts characters. -/
structure PointsAt (text : String) (counted error : ParseError) : Prop where
  cause : error.cause = counted.cause
  start : columnAt? text.toList counted.span.start = some error.span.start
  stop : columnAt? text.toList counted.span.stop = some error.span.stop
  visible : error.cause.isAboutPart = false → error.span.start < error.span.stop
  part : error.cause.isAboutPart = true →
    ∃ part : Fragment, part.IsPart text.toList ∧ error.span = part.span

namespace PointsAt

variable {text : String} {range span : Span} {fragment : Fragment} {cause : ErrorCause}

theorem between (start : columnAt? text.toList range.start = some span.start)
    (stop : columnAt? text.toList range.stop = some span.stop) (visible : span.start < span.stop)
    (other : cause.isAboutPart = false) : PointsAt text ⟨cause, range⟩ ⟨cause, span⟩ where
  cause := rfl
  start := start
  stop := stop
  visible _ := visible
  part about := by simp [other] at about

theorem of_lies (lies : fragment.LiesAt text range) (nonempty : fragment.chars ≠ [])
    (other : cause.isAboutPart = false) : PointsAt text ⟨cause, range⟩ ⟨cause, fragment.span⟩ := by
  obtain ⟨start, stop⟩ := lies.columns
  have visible := List.length_pos_iff.mpr nonempty
  exact .between start stop (Nat.lt_add_of_pos_right visible) other

theorem of_part (lies : fragment.LiesAt text range) (about : cause.isAboutPart = true)
    (part : fragment.IsPart text.toList) :
    PointsAt text ⟨cause, range⟩ ⟨cause, fragment.span⟩ where
  cause := rfl
  start := lies.columns.1
  stop := lies.columns.2
  visible other := by simp [about] at other
  part _ := ⟨fragment, part, rfl⟩

end PointsAt

/-- What readers of bytes and of characters come to: related results, or the same error. -/
inductive Mirrors {First Second : Type} (text : String) (Related : First → Second → Prop) :
    Except Halt First → Except ParseError Second → Prop where
  | ok {first : First} {second : Second} (related : Related first second) :
      Mirrors text Related (.ok first) (.ok second)
  | rejected {counted error : ParseError} (points : PointsAt text counted error) :
      Mirrors text Related (.error (.rejected counted)) (.error error)

namespace Mirrors

variable {text : String} {First Second Third Fourth : Type} {Related : First → Second → Prop}
  {Later : Third → Fourth → Prop} {range : Span} {fragment : Fragment} {cause : ErrorCause}

theorem bind {first : Except Halt First} {second : Except ParseError Second}
    {next : First → Except Halt Third} {after : Second → Except ParseError Fourth}
    (mirrors : Mirrors text Related first second)
    (later : ∀ left right, Related left right → Mirrors text Later (next left) (after right)) :
    Mirrors text Later (first >>= next) (second >>= after) := by
  cases mirrors with
  | ok related => exact later _ _ related
  | rejected points => exact .rejected points

theorem mono {Weaker : First → Second → Prop} {first : Except Halt First}
    {second : Except ParseError Second} (mirrors : Mirrors text Related first second)
    (weaker : ∀ left right, Related left right → Weaker left right) :
    Mirrors text Weaker first second := by
  cases mirrors with
  | ok related => exact .ok (weaker _ _ related)
  | rejected points => exact .rejected points

/-- A step that only the reader of bytes takes. -/
theorem step {Value : Type} {first : Except Halt Value} {value : Value}
    {next : Value → Except Halt First} {second : Except ParseError Second} (done : first = .ok value)
    (later : Mirrors text Related (next value) second) :
    Mirrors text Related (first >>= next) second := by
  rw [done]
  exact later

theorem branch {condition same : Prop} [Decidable condition] [Decidable same]
    {first firstElse : Except Halt First} {second secondElse : Except ParseError Second}
    (alike : condition ↔ same) (yes : same → Mirrors text Related first second)
    (no : ¬ same → Mirrors text Related firstElse secondElse) :
    Mirrors text Related (if condition then first else firstElse)
      (if same then second else secondElse) := by
  by_cases holds : same
  · rw [if_pos holds, if_pos (alike.mpr holds)]
    exact yes holds
  · rw [if_neg holds, if_neg (alike.not.mpr holds)]
    exact no holds

theorem reject (lies : fragment.LiesAt text range) (nonempty : fragment.chars ≠ [])
    (other : cause.isAboutPart = false) :
    Mirrors text Related (Bytewise.fail range cause) (Source.reject fragment cause) :=
  .rejected (.of_lies lies nonempty other)

/-- Text that is left where there should be none, reported without the blanks around it. -/
theorem leftover (lies : fragment.LiesAt text range) (nonempty : fragment.chars ≠ [])
    (last : ∀ char ∈ fragment.chars.getLast?, isBlank char = false)
    (other : cause.isAboutPart = false) :
    Mirrors text Related (Bytewise.trim text range >>= fun range => Bytewise.fail range cause)
      (Source.reject fragment.trim cause) := by
  obtain ⟨trimmed, done, placed⟩ := lies.exists_trim
  exact .step done (.reject placed (Fragment.trim_ne_nil _ nonempty last) other)

end Mirrors

variable {text : String} {range : Span} {start : Nat} {rest : List Char}

theorem readRegister_mirrors (lies : Fragment.LiesAt text range ⟨start, '%' :: rest⟩) :
    Mirrors text (fun found read => found.1 = read.1 ∧
        read.2.LiesAt text ⟨found.2, range.stop⟩ ∧ read.2.chars <:+ '%' :: rest)
      (Bytewise.readRegister text range) (readRegister ⟨start, '%' :: rest⟩) := by
  have after : Fragment.LiesAt text ⟨range.start + 1, range.stop⟩ ⟨start + 1, rest⟩ := lies.tail
  obtain ⟨stop, scanned, name, remaining⟩ := after.exists_scan asciiOnly_isIdent
  have behind : Fragment.drop ⟨start, '%' :: rest⟩ 1 = ⟨start + 1, rest⟩ := rfl
  have suffix : rest.dropWhile isIdent <:+ '%' :: rest :=
    (List.dropWhile_suffix isIdent).trans (List.suffix_cons '%' rest)
  unfold Bytewise.readRegister readRegister
  simp only [behind, Fragment.text]
  refine .step scanned (.step name.slice_eq (.branch Iff.rfl ?_ ?_))
  · intro _
    exact .rejected (.between lies.columns.1 after.columns.1 (Nat.lt_succ_self _) rfl)
  · intro _
    cases Register.ofName? (String.ofList (Fragment.takeWhile ⟨start + 1, rest⟩ isIdent).chars) with
    | some register => exact .ok ⟨rfl, remaining, suffix⟩
    | none =>
      have visible : start < (Fragment.takeWhile ⟨start + 1, rest⟩ isIdent).stop :=
        Nat.lt_of_lt_of_le (Nat.lt_succ_self _) (Nat.le_add_right _ _)
      exact .rejected (.between lies.columns.1 name.columns.2 visible rfl)

theorem readRegisterOperand_mirrors (slot : Slot)
    (lies : Fragment.LiesAt text range ⟨start, '%' :: rest⟩) (solid : Solid ('%' :: rest)) :
    Mirrors text Eq (Bytewise.readRegisterOperand text slot range)
      (readRegisterOperand slot ⟨start, '%' :: rest⟩) := by
  refine .bind (readRegister_mirrors lies) ?_
  rintro ⟨register, stop⟩ ⟨_, remaining⟩ ⟨rfl, placed, suffix⟩
  refine .branch (placed.lt_iff.trans Fragment.not_isEmpty_iff.symm) ?_ ?_
  · intro left
    exact .leftover placed (Fragment.not_isEmpty_iff.mp left) (solid.last suffix) rfl
  · intro _
    refine .branch Iff.rfl (fun _ => .reject lies solid.nonempty rfl) fun _ => ?_
    exact .branch Iff.rfl (fun _ => .reject lies solid.nonempty rfl) fun _ => .ok rfl

variable {piece : Fragment}

theorem readLabelOperand_mirrors (slot : Slot) (lies : piece.LiesAt text range)
    (solid : Solid piece.chars) :
    Mirrors text Eq (Bytewise.readLabelOperand text slot range) (readLabelOperand slot piece) := by
  obtain ⟨stop, scanned, name, remaining⟩ := lies.exists_scan asciiOnly_isIdent
  unfold Bytewise.readLabelOperand readLabelOperand
  refine .step scanned (.branch (remaining.lt_iff.trans Fragment.not_isEmpty_iff.symm) ?_ ?_)
  · intro left
    exact .leftover remaining (Fragment.not_isEmpty_iff.mp left)
      (solid.last (List.dropWhile_suffix isIdent)) rfl
  · intro _
    refine .step name.slice_eq (.branch Iff.rfl (fun _ => .ok rfl) fun _ => ?_)
    simp only [Fragment.text]
    cases Register.ofName? (String.ofList (piece.takeWhile isIdent).chars) with
    | some register => exact .reject lies solid.nonempty rfl
    | none => exact .reject lies solid.nonempty rfl

theorem readImmediate_isAboutPart {bits : Nat} {chars : List Char} {cause : ErrorCause}
    (failed : readImmediate bits chars = .error cause) : cause.isAboutPart = false := by
  rw [Bool.eq_false_iff]
  intro about
  have address := ErrorCause.kind_of_isAboutPart about
  rcases readImmediate_kind failed with kind | kind <;> simp [kind] at address

theorem readConstantOperand_mirrors (slot : Slot)
    (lies : Fragment.LiesAt text range ⟨start, '$' :: rest⟩) :
    Mirrors text Eq (Bytewise.readConstantOperand text slot range)
      (readConstantOperand slot ⟨start, '$' :: rest⟩) := by
  have after : Fragment.LiesAt text ⟨range.start + 1, range.stop⟩ ⟨start + 1, rest⟩ := lies.tail
  have nonempty : '$' :: rest ≠ [] := List.cons_ne_nil _ _
  refine .step lies.slice_eq (.branch Iff.rfl (fun _ => .reject lies nonempty rfl) fun _ => ?_)
  refine .step after.slice_eq ?_
  dsimp only
  cases read : readImmediate slot.size.bits ('$' :: rest) with
  | ok constant => exact .ok rfl
  | error cause => exact .reject lies nonempty (readImmediate_isAboutPart read)

/-- A part without a register is reported where it stands, or at the context if it is empty. -/
theorem readAddressRegister_mirrors {role : AddressRole} {contextRange : Span}
    {context part : Fragment} (lies : part.LiesAt text range) (trimmed : Trimmed part.chars)
    (missing : part.chars = [] → PointsAt text ⟨.missingAddressRegister role, contextRange⟩
      ⟨.missingAddressRegister role, context.span⟩)
    (misplaced : part.chars ≠ [] → PointsAt text ⟨.missingAddressRegister role, range⟩
      ⟨.missingAddressRegister role, part.span⟩) :
    Mirrors text Eq (Bytewise.readAddressRegister text role contextRange range)
      (readAddressRegister role context part) := by
  obtain ⟨start, chars⟩ := part
  unfold Bytewise.readAddressRegister readAddressRegister
  rw [lies.isEmpty_eq]
  cases chars with
  | nil => exact .rejected (missing rfl)
  | cons char rest =>
    have solid : Solid (char :: rest) := ⟨List.cons_ne_nil _ _, trimmed⟩
    obtain ⟨byte, found, shows⟩ := lies.exists_head solid.nonempty
    have alike : ascii? byte ≠ some '%' ↔ some char ≠ some '%' := by
      rw [shows]
      exact (shown?_eq_some (by decide)).not.trans (by simp)
    refine .step found (.branch alike ?_ ?_)
    · intro _
      exact .rejected (misplaced solid.nonempty)
    · intro percent
      obtain rfl : char = '%' := Option.some.inj (not_not.mp percent)
      refine .bind (readRegister_mirrors lies) ?_
      rintro ⟨register, stop⟩ ⟨_, remaining⟩ ⟨rfl, placed, suffix⟩
      refine .branch (placed.lt_iff.trans Fragment.not_isEmpty_iff.symm) ?_ ?_
      · intro left
        exact .leftover placed (Fragment.not_isEmpty_iff.mp left) (solid.last suffix) rfl
      · intro _
        exact .branch Iff.rfl (fun _ => .reject lies solid.nonempty rfl) fun _ => .ok rfl

theorem readScale_mirrors {part : Fragment} (lies : part.LiesAt text range)
    (isPart : part.IsPart text.toList) :
    Mirrors text Eq (Bytewise.readScale text range) (readScale part) := by
  have spelled := lies.slice_eq
  fun_cases readScale part with
  | case1 one => exact .step (spelled.trans (congrArg _ one)) (.ok rfl)
  | case2 two => exact .step (spelled.trans (congrArg _ two)) (.ok rfl)
  | case3 four => exact .step (spelled.trans (congrArg _ four)) (.ok rfl)
  | case4 eight => exact .step (spelled.trans (congrArg _ eight)) (.ok rfl)
  | case5 notOne notTwo notFour notEight =>
    refine .step spelled ?_
    split
    · contradiction
    · contradiction
    · contradiction
    · contradiction
    · exact .rejected (.of_part lies rfl isPart)

/-- The parts of an address; behind the first they stand between commas. -/
structure PartsAt (text : String) (ranges : List Span) (parts : List Fragment) : Prop where
  placed : List.Forall₂ (Fragment.LiesAt text) ranges parts
  trimmed : ∀ part ∈ parts, Trimmed part.chars
  isPart : ∀ part ∈ parts.tail, part.IsPart text.toList

theorem addressParts_eq {inner : Fragment} {opening closing : Nat}
    (lies : inner.LiesAt text ⟨opening + 1, closing⟩)
    (isPart : ∀ part ∈ inner.splitCommas.tail, part.trim.IsPart text.toList) :
    ∃ ranges, Bytewise.addressParts text opening closing = .ok ranges ∧
      PartsAt text ranges (inner.splitCommas.map Fragment.trim) := by
  have flat : ∀ char, shown? char = none → (fun _ : Char => (0 : Int)) char = 0 := fun _ _ => rfl
  obtain ⟨cuts, cut, placed⟩ := lies.exists_pieces flat
  obtain ⟨ranges, done, trims⟩ := Fragment.LiesAt.exists_trims placed
  refine ⟨ranges, ?_, trims, ?_, ?_⟩
  · rw [Bytewise.addressParts, cut]
    exact done
  · intro part member
    obtain ⟨whole, _, rfl⟩ := List.mem_map.mp member
    exact Fragment.trimmed_trim whole.start whole.chars
  · intro part member
    rw [← List.map_tail] at member
    obtain ⟨whole, later, rfl⟩ := List.mem_map.mp member
    exact isPart whole later

theorem readAddress_mirrors {outer : Fragment} {outerRange : Span} {ranges : List Span}
    {parts : List Fragment} (partsAt : PartsAt text ranges parts) (lies : piece.LiesAt text range)
    (solid : Solid piece.chars) (outerLies : outer.LiesAt text outerRange)
    (nonempty : outer.chars ≠ []) (displacement : BitVec 64) :
    Mirrors text Eq (Bytewise.readAddress text range outerRange displacement ranges)
      (readAddress piece outer displacement parts) := by
  obtain ⟨placed, trimmed, isPart⟩ := partsAt
  have missingBase : PointsAt text ⟨.missingAddressRegister .base, outerRange⟩
      ⟨.missingAddressRegister .base, outer.span⟩ := .of_lies outerLies nonempty rfl
  cases placed with
  | nil => exact .rejected missingBase
  | cons baseLies later =>
    rename_i baseRange base _ _
    have readBase : Mirrors text Eq
        (Bytewise.readAddressRegister text .base outerRange baseRange)
        (readAddressRegister .base outer base) :=
      readAddressRegister_mirrors baseLies (trimmed base (List.mem_cons_self ..))
        (fun _ => missingBase) fun visible => .of_lies baseLies visible rfl
    cases later with
    | nil =>
      refine .bind readBase ?_
      rintro base _ rfl
      exact .ok rfl
    | cons indexLies later =>
      rename_i indexRange index _ _
      have indexPart : index.IsPart text.toList := isPart index (List.mem_cons_self ..)
      have missingIndex : PointsAt text ⟨.missingAddressRegister .index, indexRange⟩
          ⟨.missingAddressRegister .index, index.span⟩ := .of_part indexLies rfl indexPart
      have readIndex : Mirrors text Eq
          (Bytewise.readAddressRegister text .index indexRange indexRange)
          (readAddressRegister .index index index) :=
        readAddressRegister_mirrors indexLies (trimmed index (by simp))
          (fun _ => missingIndex) fun _ => missingIndex
      cases later with
      | nil =>
        refine .bind readBase ?_
        rintro base _ rfl
        refine .bind readIndex ?_
        rintro index _ rfl
        exact .ok rfl
      | cons scaleLies later =>
        rename_i scaleRange scale _ _
        cases later with
        | nil =>
          refine .bind readBase ?_
          rintro base _ rfl
          refine .bind readIndex ?_
          rintro index _ rfl
          refine .bind (readScale_mirrors scaleLies (isPart scale (by simp))) ?_
          rintro scale _ rfl
          exact .ok rfl
        | cons _ _ => exact .reject lies solid.nonempty rfl

/-- Where the parts of a memory operand lie that has a parenthesis at `opening` and one at
`closing`. -/
theorem Fragment.LiesAt.address {lead inner after : List Char}
    (lies : Fragment.LiesAt text range ⟨start, (lead ++ '(' :: inner) ++ ')' :: after⟩) :
    let opening := range.start + byteLength lead
    let closing := range.start + byteLength (lead ++ '(' :: inner)
    Fragment.LiesAt text ⟨range.start, opening⟩ ⟨start, lead⟩ ∧
      Fragment.LiesAt text ⟨opening, closing + 1⟩
        ⟨start + lead.length, '(' :: inner ++ [')']⟩ ∧
      Fragment.LiesAt text ⟨opening + 1, closing⟩ ⟨start + lead.length + 1, inner⟩ ∧
      Fragment.LiesAt text ⟨closing + 1, range.stop⟩
        ⟨start + ((lead ++ '(' :: inner).length + 1), after⟩ := by
  intro opening closing
  obtain ⟨front, back⟩ := lies.split
  obtain ⟨before, within⟩ := front.split
  have closed : Fragment.LiesAt text range
      ⟨start, lead ++ (('(' :: inner ++ [')']) ++ after)⟩ := by simpa using lies
  have outer := closed.split.2.split.1
  have ends : opening + byteLength ('(' :: inner ++ [')']) = closing + 1 := by
    have single : Char.utf8Size ')' = 1 := rfl
    simp [opening, closing, Nat.add_assoc, single]
  exact ⟨before, ends ▸ outer, within.tail, back.tail⟩

/-- The address of a memory operand, once its displacement is known. -/
theorem addressParts_mirrors {outer inner : Fragment} {opening closing : Nat}
    (lies : piece.LiesAt text range) (solid : Solid piece.chars)
    (outerLies : outer.LiesAt text ⟨opening, closing + 1⟩)
    (shape : outer.chars = '(' :: inner.chars ++ [')']) (starts : inner.start = outer.start + 1)
    (innerLies : inner.LiesAt text ⟨opening + 1, closing⟩) (displacement : BitVec 64) :
    Mirrors text (@Eq (Operand String))
      (do
        let parts ← Bytewise.addressParts text opening closing
        return .memory
          (← Bytewise.readAddress text range ⟨opening, closing + 1⟩ displacement parts))
      (do return .memory (← readAddress piece outer displacement
        (inner.splitCommas.map Fragment.trim))) := by
  have isPart : ∀ part ∈ inner.splitCommas.tail, part.trim.IsPart text.toList := by
    intro part member
    obtain ⟨before, after, whole, column, _⟩ := outerLies
    rw [shape] at whole
    have cut : text.toList = before ++ '(' :: (inner.chars ++ ')' :: after) := by simpa using whole
    exact Fragment.isPart_of_mem_tail cut rfl (starts.trans (congrArg (· + 1) column)) member
  obtain ⟨ranges, done, partsAt⟩ := addressParts_eq innerLies isPart
  have nonempty : outer.chars ≠ [] := by
    rw [shape]
    exact List.cons_ne_nil _ _
  refine .step done (.bind (readAddress_mirrors partsAt lies solid outerLies nonempty _) ?_)
  rintro reference _ rfl
  exact .ok rfl

/-- A memory operand that closes the parenthesis it opens. -/
theorem readMemoryOperand_closed {lead inner after : List Char} (slot : Slot)
    (lies : Fragment.LiesAt text range ⟨start, (lead ++ '(' :: inner) ++ ')' :: after⟩)
    (solid : Solid ((lead ++ '(' :: inner) ++ ')' :: after)) (noOpening : '(' ∉ lead)
    (noClosing : ')' ∉ after) :
    Mirrors text Eq (Bytewise.readMemoryOperand text slot range)
      (readMemoryOperand slot ⟨start, (lead ++ '(' :: inner) ++ ')' :: after⟩) := by
  obtain ⟨before, outer, within, trailing⟩ := lies.address
  have first : Bytewise.find? '(' ((lead ++ '(' :: inner) ++ ')' :: after) =
      some (byteLength lead) := by
    rw [List.append_assoc]
    exact Bytewise.find?_append lead _ noOpening
  have last := Bytewise.findLast?_append (lead ++ '(' :: inner) noClosing
  have splits : Fragment.splitLast? ')' ⟨start, (lead ++ '(' :: inner) ++ ')' :: after⟩ = _ :=
    Fragment.splitLast?_append ')' (lead ++ '(' :: inner) noClosing
  have led : Fragment.takeWhile ⟨start, lead ++ '(' :: inner⟩ (· ≠ '(') = ⟨start, lead⟩ :=
    Fragment.takeWhile_ne_append noOpening inner
  have opened : Fragment.dropWhile ⟨start, lead ++ '(' :: inner⟩ (· ≠ '(') =
      ⟨start + lead.length, '(' :: inner⟩ :=
    Fragment.dropWhile_ne_append noOpening inner
  have ordered : ¬ range.start + byteLength (lead ++ '(' :: inner) <
      range.start + byteLength lead := by
    rw [byteLength_append]
    omega
  have visible : ¬ Fragment.isEmpty ⟨start + lead.length, '(' :: inner⟩ = true :=
    Bool.false_ne_true
  refine .step lies.slice_eq (.branch Iff.rfl (fun _ => .reject lies solid.nonempty rfl) fun _ => ?_)
  simp only [first, last, splits, led, opened, Option.getD_some]
  rw [if_neg ordered, if_neg visible]
  obtain ⟨left, trimmedLeft, leftLies⟩ := trailing.exists_trim
  refine .step trimmedLeft (.branch (by rw [leftLies.isEmpty_eq]) ?_ ?_)
  · intro leftover
    exact .reject leftLies (Fragment.not_isEmpty_iff.mp leftover) rfl
  · intro _
    obtain ⟨spelled, trimmedSpelled, spelledLies⟩ := before.exists_trim
    have address := addressParts_mirrors lies solid outer rfl rfl within
    refine .step trimmedSpelled (.branch (by rw [spelledLies.isEmpty_eq]) ?_ ?_)
    · intro _
      exact address 0
    · intro nonempty
      refine .step spelledLies.slice_eq ?_
      cases readDisplacement? (Fragment.trim ⟨start, lead⟩).chars with
      | some displacement => exact address displacement
      | none =>
        exact .reject spelledLies (Fragment.isEmpty_iff.not.mp nonempty) rfl

/-- A memory operand whose last closing parenthesis comes before the first opening one. -/
theorem readMemoryOperand_crossed {front lead : List Char} (slot : Slot)
    (lies : Fragment.LiesAt text range ⟨start, front ++ ')' :: (lead ++ '(' :: rest)⟩)
    (noOpening : '(' ∉ front ++ ')' :: lead) (noClosing : ')' ∉ lead ++ '(' :: rest) :
    Mirrors text Eq (Bytewise.readMemoryOperand text slot range)
      (readMemoryOperand slot ⟨start, front ++ ')' :: (lead ++ '(' :: rest)⟩) := by
  have inFront : '(' ∉ front := fun member => noOpening (by simp [member])
  have first : Bytewise.find? '(' (front ++ ')' :: (lead ++ '(' :: rest)) =
      some (byteLength (front ++ ')' :: lead)) := by
    simpa using Bytewise.find?_append (front ++ ')' :: lead) rest noOpening
  have last := Bytewise.findLast?_append front noClosing
  have splits : Fragment.splitLast? ')' ⟨start, front ++ ')' :: (lead ++ '(' :: rest)⟩ = _ :=
    Fragment.splitLast?_append ')' front noClosing
  have opened : Fragment.dropWhile ⟨start, front⟩ (· ≠ '(') = ⟨start + front.length, []⟩ :=
    Fragment.dropWhile_ne_eq inFront
  have before : range.start + byteLength front <
      range.start + byteLength (front ++ ')' :: lead) := by
    have taken := Char.utf8Size_pos ')'
    rw [byteLength_append, byteLength_cons]
    omega
  have nothing : Fragment.isEmpty ⟨start + front.length, []⟩ = true := rfl
  have nonempty : front ++ ')' :: (lead ++ '(' :: rest) ≠ [] := by simp
  refine .step lies.slice_eq (.branch Iff.rfl (fun _ => .reject lies nonempty rfl) fun _ => ?_)
  simp only [first, last, splits, opened, Option.getD_some]
  rw [if_pos before, if_pos nothing]
  exact .reject lies nonempty rfl

theorem readMemoryOperand_mirrors (slot : Slot) (lies : piece.LiesAt text range)
    (solid : Solid piece.chars) (opens : '(' ∈ piece.chars) :
    Mirrors text Eq (Bytewise.readMemoryOperand text slot range)
      (readMemoryOperand slot piece) := by
  obtain ⟨start, chars⟩ := piece
  cases Fragment.parentheses_of_mem opens with
  | unclosed noClosing =>
    have last := Bytewise.findLast?_eq_none noClosing
    have splits : Fragment.splitLast? ')' ⟨start, chars⟩ = none :=
      Fragment.splitLast?_eq_none noClosing
    refine .step lies.slice_eq
      (.branch Iff.rfl (fun _ => .reject lies solid.nonempty rfl) fun _ => ?_)
    simp only [last, splits]
    exact .reject lies solid.nonempty rfl
  | crossed front lead rest noOpening noClosing =>
    exact readMemoryOperand_crossed slot lies noOpening noClosing
  | closed lead inner after noOpening noClosing =>
    exact readMemoryOperand_closed slot lies solid noOpening noClosing

theorem readOperand_mirrors (slot : Slot) (lies : piece.LiesAt text range)
    (solid : Solid piece.chars) :
    Mirrors text Eq (Bytewise.readOperand text slot range) (readOperand slot piece) := by
  obtain ⟨byte, found, shows⟩ := lies.exists_head solid.nonempty
  obtain ⟨start, chars⟩ := piece
  obtain ⟨char, rest, rfl⟩ := List.exists_cons_of_ne_nil solid.nonempty
  have shown : ascii? byte = shown? char := shows
  refine .step lies.slice_eq (.step found (.branch Iff.rfl ?_ fun _ => ?_))
  · intro opens
    exact readMemoryOperand_mirrors slot lies solid opens
  · simp only [shown, shown?_any asciiOnly_isIdentStart, shown?_eq_some (by decide : '%'.toNat < 128),
      shown?_eq_some (by decide : '$'.toNat < 128)]
    generalize read : ite (char = '%') _ _ = result
    split
    · rename_i head
      obtain rfl := Option.some.inj head
      rw [← read, if_pos rfl]
      exact readRegisterOperand_mirrors slot lies solid
    · rename_i head
      obtain rfl := Option.some.inj head
      rw [← read, if_neg (by decide), if_neg (by decide), if_pos rfl]
      exact readConstantOperand_mirrors slot lies
    · rename_i other percent dollar head
      obtain rfl := Option.some.inj head
      rw [← read, if_neg percent, if_neg dollar]
      exact .branch Iff.rfl (fun _ => readLabelOperand_mirrors slot lies solid) fun _ =>
        .reject lies solid.nonempty rfl
    · rename_i head
      cases head

end AsmLab.Source
