import Mathlib
import AsmLab.Proofs.Source.FragmentCutting

/-! What is left of a fragment when it is trimmed or cut: the blanks around the trimmed text, and the
commas around the pieces. -/
namespace AsmLab.Source

/-- Text that has something to show, and no blank at either end. -/
structure Solid (chars : List Char) : Prop where
  nonempty : chars ≠ []
  trimmed : Trimmed chars

theorem last_of_suffix {chars rest : List Char} (suffix : rest <:+ chars)
    (last : ∀ char ∈ chars.getLast?, isBlank char = false) :
    ∀ char ∈ rest.getLast?, isBlank char = false := by
  obtain ⟨front, rfl⟩ := suffix
  intro char ends
  apply last char
  rw [List.getLast?_append, ends, Option.some_or]
  rfl

theorem Solid.last {chars rest : List Char} (solid : Solid chars) (suffix : rest <:+ chars) :
    ∀ char ∈ rest.getLast?, isBlank char = false :=
  last_of_suffix suffix solid.trimmed.2

namespace Fragment

variable {start : Nat} {chars : List Char}

theorem isEmpty_iff {fragment : Fragment} : fragment.isEmpty = true ↔ fragment.chars = [] :=
  List.isEmpty_iff

theorem not_isEmpty_iff {fragment : Fragment} :
    (!fragment.isEmpty) = true ↔ fragment.chars ≠ [] := by
  simp [isEmpty]

theorem exists_trim_eq (start : Nat) (chars : List Char) :
    ∃ left right, chars = left ++ (trim ⟨start, chars⟩).chars ++ right ∧
      (∀ char ∈ left, isBlank char = true) ∧ (∀ char ∈ right, isBlank char = true) ∧
      (trim ⟨start, chars⟩).start = start + left.length := by
  let rest := chars.dropWhile isBlank
  have back : rest = (rest.reverse.dropWhile isBlank).reverse ++
      (rest.reverse.takeWhile isBlank).reverse := by
    rw [← List.reverse_append, List.takeWhile_append_dropWhile, List.reverse_reverse]
  refine ⟨chars.takeWhile isBlank, (rest.reverse.takeWhile isBlank).reverse, ?_, ?_, ?_, rfl⟩
  · calc chars = chars.takeWhile isBlank ++ rest := List.takeWhile_append_dropWhile.symm
      _ = _ := by
        rw [List.append_assoc]
        exact congrArg (chars.takeWhile isBlank ++ ·) back
  · intro char member
    exact List.mem_takeWhile_imp member
  · intro char member
    exact List.mem_takeWhile_imp (List.mem_reverse.mp member)

theorem head?_dropWhile_isBlank (chars : List Char) :
    ∀ char ∈ (chars.dropWhile isBlank).head?, isBlank char = false := by
  intro char first
  have visible := List.head?_dropWhile_not isBlank chars
  rw [first] at visible
  exact visible

theorem trimmed_trim (start : Nat) (chars : List Char) :
    Trimmed (trim ⟨start, chars⟩).chars := by
  let rest := chars.dropWhile isBlank
  change Trimmed (rest.reverse.dropWhile isBlank).reverse
  constructor
  · intro char first
    have leading : (rest.reverse.dropWhile isBlank).reverse <+: rest.reverse.reverse :=
      (List.dropWhile_suffix isBlank).reverse
    rw [List.reverse_reverse] at leading
    obtain ⟨removed, whole⟩ := leading
    apply head?_dropWhile_isBlank chars char
    change char ∈ rest.head?
    rw [← whole, List.head?_append, first, Option.some_or]
    rfl
  · intro char last
    rw [List.getLast?_reverse] at last
    exact head?_dropWhile_isBlank rest.reverse char last

theorem solid_trim {fragment : Fragment} (visible : ¬ fragment.trim.isEmpty = true) :
    Solid fragment.trim.chars :=
  ⟨isEmpty_iff.not.mp visible, trimmed_trim fragment.start fragment.chars⟩

theorem trim_eq_dropWhile (start : Nat) (last : ∀ char ∈ chars.getLast?, isBlank char = false) :
    trim ⟨start, chars⟩ = dropWhile ⟨start, chars⟩ isBlank := by
  have kept : (chars.dropWhile isBlank).reverse.dropWhile isBlank =
      (chars.dropWhile isBlank).reverse := by
    cases back : (chars.dropWhile isBlank).reverse with
    | nil => rfl
    | cons char rest =>
      have ends : char ∈ (chars.dropWhile isBlank).getLast? := by
        rw [← List.head?_reverse, back]
        rfl
      have visible := last_of_suffix (List.dropWhile_suffix isBlank) last char ends
      rw [List.dropWhile_cons_of_neg (by simp [visible])]
  rw [trim, trimEnd, dropWhile, kept, List.reverse_reverse]

/-- Of text whose last character is no blank something is left. -/
theorem trim_ne_nil (start : Nat) (nonempty : chars ≠ [])
    (last : ∀ char ∈ chars.getLast?, isBlank char = false) :
    (trim ⟨start, chars⟩).chars ≠ [] := by
  intro empty
  obtain ⟨left, right, whole, leftBlank, rightBlank, _⟩ := exists_trim_eq start chars
  rw [empty, List.append_nil] at whole
  have visible := last (chars.getLast nonempty) (List.getLast?_eq_some_getLast nonempty)
  have member : chars.getLast nonempty ∈ left ++ right := by
    rw [← whole]
    exact List.getLast_mem nonempty
  rcases List.mem_append.mp member with inLeft | inRight
  · rw [leftBlank _ inLeft] at visible
    cases visible
  · rw [rightBlank _ inRight] at visible
    cases visible

theorem all_ne_of_not_mem {wanted : Char} (absent : wanted ∉ chars) :
    ∀ char ∈ chars, decide (char ≠ wanted) = true := by
  intro char member
  rw [decide_eq_true_eq]
  rintro rfl
  exact absent member

theorem takeWhile_ne_append {wanted : Char} {front : List Char} (absent : wanted ∉ front)
    (rest : List Char) :
    takeWhile ⟨start, front ++ wanted :: rest⟩ (· ≠ wanted) = ⟨start, front⟩ :=
  takeWhile_append start _ (all_ne_of_not_mem absent) (by simp)

theorem dropWhile_ne_append {wanted : Char} {front : List Char} (absent : wanted ∉ front)
    (rest : List Char) :
    dropWhile ⟨start, front ++ wanted :: rest⟩ (· ≠ wanted) =
      ⟨start + front.length, wanted :: rest⟩ :=
  dropWhile_append start _ (all_ne_of_not_mem absent) (by simp)

theorem takeWhile_ne_eq {wanted : Char} (absent : wanted ∉ chars) :
    takeWhile ⟨start, chars⟩ (· ≠ wanted) = ⟨start, chars⟩ := by
  simpa using takeWhile_append start [] (all_ne_of_not_mem absent) (by simp)

theorem dropWhile_ne_eq {wanted : Char} (absent : wanted ∉ chars) :
    dropWhile ⟨start, chars⟩ (· ≠ wanted) = ⟨start + chars.length, []⟩ := by
  simpa using dropWhile_append start [] (all_ne_of_not_mem absent) (by simp)

theorem splitLast?_append (char : Char) (front : List Char) {after : List Char}
    (absent : char ∉ after) :
    splitLast? char ⟨start, front ++ char :: after⟩ =
      some (⟨start, front⟩, ⟨start + (front.length + 1), after⟩) := by
  have inBack : char ∉ after.reverse := fun member => absent (List.mem_reverse.mp member)
  have back : takeWhile ⟨0, after.reverse ++ char :: front.reverse⟩ (· ≠ char) =
      ⟨0, after.reverse⟩ :=
    takeWhile_ne_append inBack front.reverse
  have taken : (front ++ char :: after).reverse.takeWhile (· ≠ char) = after.reverse := by
    rw [List.reverse_append, List.reverse_cons, List.append_assoc]
    exact congrArg Fragment.chars back
  have length : (front ++ char :: after).length - after.length - 1 = front.length := by
    rw [List.length_append, List.length_cons]
    omega
  have shorter : after.length < (front ++ char :: after).length := by
    rw [List.length_append, List.length_cons]
    omega
  simp only [splitLast?, taken, List.reverse_reverse, length, if_pos shorter, List.take_left]
  simp [drop]

theorem splitLast?_eq_none {char : Char} (absent : char ∉ chars) :
    splitLast? char ⟨start, chars⟩ = none := by
  have taken : chars.reverse.takeWhile (· ≠ char) = chars.reverse := by
    rw [List.takeWhile_eq_self_iff]
    exact all_ne_of_not_mem fun member => absent (List.mem_reverse.mp member)
  simp only [splitLast?, taken, List.reverse_reverse, lt_irrefl, if_false]

theorem exists_last_of_mem {char : Char} (member : char ∈ chars) :
    ∃ front after, chars = front ++ char :: after ∧ char ∉ after := by
  obtain ⟨after, front, whole, absent⟩ :=
    List.eq_append_cons_of_mem (List.mem_reverse.mpr member)
  refine ⟨front.reverse, after.reverse, ?_, fun member => absent (List.mem_reverse.mp member)⟩
  rw [← List.reverse_reverse chars, whole]
  simp

/-- How the first opening parenthesis of a text and its last closing one stand to each other. -/
inductive Parentheses : List Char → Prop where
  | unclosed {chars : List Char} (noClosing : ')' ∉ chars) : Parentheses chars
  | crossed (front lead rest : List Char) (noOpening : '(' ∉ front ++ ')' :: lead)
      (noClosing : ')' ∉ lead ++ '(' :: rest) :
      Parentheses (front ++ ')' :: (lead ++ '(' :: rest))
  | closed (lead inner after : List Char) (noOpening : '(' ∉ lead) (noClosing : ')' ∉ after) :
      Parentheses ((lead ++ '(' :: inner) ++ ')' :: after)

theorem parentheses_of_mem (opens : '(' ∈ chars) : Parentheses chars := by
  by_cases closes : ')' ∈ chars
  · obtain ⟨front, after, rfl, noClosing⟩ := exists_last_of_mem closes
    by_cases inFront : '(' ∈ front
    · obtain ⟨lead, inner, rfl, noOpening⟩ := List.eq_append_cons_of_mem inFront
      exact .closed lead inner after noOpening noClosing
    · have behind : '(' ∈ after := by simpa [inFront] using opens
      obtain ⟨lead, rest, rfl, noOpening⟩ := List.eq_append_cons_of_mem behind
      exact .crossed front lead rest (by simp [inFront, noOpening]) noClosing
  · exact .unclosed closes

/-- Pieces that commas separate. -/
inductive Separated : Nat → List Char → List Fragment → Prop where
  | last (start : Nat) (chars : List Char) : Separated start chars [⟨start, chars⟩]
  | comma {start : Nat} {rest : List Char} {pieces : List Fragment} (front : List Char)
      (later : Separated (start + front.length + 1) rest pieces) :
      Separated start (front ++ ',' :: rest) (⟨start, front⟩ :: pieces)

theorem Separated.extendFirst {pieces : List Fragment} {char : Char}
    (separated : Separated (start + 1) chars pieces) :
    Separated start (char :: chars) (extendFirst start char pieces) := by
  cases separated with
  | last => exact .last start (char :: chars)
  | comma front later =>
    apply Separated.comma (char :: front)
    rw [List.length_cons, ← Nat.add_assoc, Nat.add_right_comm start]
    exact later

theorem separated_cutCommas (nesting : Char → Int) (depth : Int) (start : Nat)
    (chars : List Char) : Separated start chars (cutCommas nesting depth start chars) := by
  induction chars generalizing depth start with
  | nil => exact .last start []
  | cons char rest ih =>
    rw [cutCommas]
    split
    · rename_i separator
      rw [separator.1]
      exact .comma [] (ih depth (start + 1))
    · exact (ih _ (start + 1)).extendFirst

end Fragment

/-- What stands between a comma and the next comma or the closing parenthesis, without the blanks around
it. -/
def Fragment.IsPart (line : List Char) (part : Fragment) : Prop :=
  ∃ before left right after,
    line = before ++ ',' :: (left ++ part.chars ++ right ++ after) ∧
    (after.head? = some ',' ∨ after.head? = some ')') ∧ ',' ∉ part.chars ∧ Trimmed part.chars ∧
    (∀ char ∈ left, isBlank char = true) ∧ (∀ char ∈ right, isBlank char = true) ∧
    part.start = before.length + 1 + left.length

namespace Fragment

variable {line before after front chars : List Char} {start : Nat} {piece : Fragment}

theorem isPart_trim (whole : line = before ++ ',' :: (front ++ after)) (absent : ',' ∉ front)
    (ends : after.head? = some ',' ∨ after.head? = some ')') :
    (trim ⟨before.length + 1, front⟩).IsPart line := by
  obtain ⟨left, right, cut, leftBlank, rightBlank, starts⟩ :=
    exists_trim_eq (before.length + 1) front
  refine ⟨before, left, right, after, ?_, ends, ?_, trimmed_trim (before.length + 1) front,
    leftBlank, rightBlank, starts⟩
  · rw [whole]
    exact congrArg (fun front => before ++ ',' :: (front ++ after)) cut
  · exact fun member => absent (mem_of_mem_trim member)

theorem isPart_of_mem (whole : line = before ++ ',' :: (chars ++ after))
    (ends : after.head? = some ')') (starts : start = before.length + 1)
    (member : piece ∈ splitCommas ⟨start, chars⟩) : piece.trim.IsPart line := by
  induction length : chars.length using Nat.strong_induction_on
    generalizing before chars start with
  | _ size ih =>
    subst starts
    by_cases comma : ',' ∈ chars
    · obtain ⟨front, rest, rfl, absent⟩ := List.eq_append_cons_of_mem comma
      rw [splitCommas_append absent, List.mem_cons] at member
      rcases member with rfl | later
      · have cut : line = before ++ ',' :: (front ++ ',' :: (rest ++ after)) := by simpa using whole
        exact isPart_trim cut absent (.inl rfl)
      · have shorter : rest.length < size := by
          rw [← length, List.length_append, List.length_cons]
          omega
        have cut : line = (before ++ ',' :: front) ++ ',' :: (rest ++ after) := by
          simpa using whole
        have column : before.length + 1 + (front.length + 1) =
            (before ++ ',' :: front).length + 1 := by
          rw [List.length_append, List.length_cons, Nat.add_right_comm]
        exact ih rest.length shorter cut column later rfl
    · rw [splitCommas_single comma, List.mem_singleton] at member
      subst member
      exact isPart_trim whole comma (.inr ends)

/-- Behind the first, all pieces between the parentheses of an address are parts. -/
theorem isPart_of_mem_tail {char : Char} (whole : line = before ++ char :: (chars ++ after))
    (ends : after.head? = some ')') (starts : start = before.length + 1)
    (member : piece ∈ (splitCommas ⟨start, chars⟩).tail) : piece.trim.IsPart line := by
  subst starts
  by_cases comma : ',' ∈ chars
  · obtain ⟨front, rest, rfl, absent⟩ := List.eq_append_cons_of_mem comma
    rw [splitCommas_append absent, List.tail_cons] at member
    have cut : line = (before ++ char :: front) ++ ',' :: (rest ++ after) := by simpa using whole
    have column : before.length + 1 + (front.length + 1) =
        (before ++ char :: front).length + 1 := by
      rw [List.length_append, List.length_cons, Nat.add_right_comm]
    exact isPart_of_mem cut ends column member
  · rw [splitCommas_single comma, List.tail_cons] at member
    cases member

end Fragment

end AsmLab.Source
