import AsmLab.Proofs.Program.SourceLines

/-! Taking lines out of a source text. Their line ends stay, so that the other lines keep their
places; a last line without a line end leaves no line at all. -/
namespace AsmLab.Program

/-- Some texts, the first of which has the number `number`, with those of some numbers made blank. -/
def emptied {Text : Type} (blank : Text) (numbers : List Nat) (number : Nat) (texts : List Text) :
    List Text :=
  texts.mapIdx fun index text => if number + index ∈ numbers then blank else text

section Emptied

variable {Text : Type} {blank : Text} {numbers : List Nat} {number : Nat}

theorem emptied_cons (text : Text) (texts : List Text) :
    emptied blank numbers number (text :: texts) =
      (if number ∈ numbers then blank else text) :: emptied blank numbers (number + 1) texts := by
  simp [emptied, List.mapIdx_cons, Nat.add_assoc, Nat.add_comm 1]

theorem emptied_concat (texts : List Text) (text : Text) :
    emptied blank numbers number (texts ++ [text]) =
      emptied blank numbers number texts ++
        [if number + texts.length ∈ numbers then blank else text] := by
  simp [emptied, List.mapIdx_append]

theorem map_emptied {Other : Type} (convert : Text → Other) (texts : List Text) :
    (emptied blank numbers number texts).map convert =
      emptied (convert blank) numbers number (texts.map convert) := by
  induction texts generalizing number with
  | nil => rfl
  | cons text rest ih => rw [emptied_cons, List.map_cons, List.map_cons, emptied_cons, ih, apply_ite convert]

end Emptied

/-- Takes all characters out of some lines of a text that starts in front of the line `number`. Line
ends stay. -/
def eraseLines (numbers : List Nat) (number : Nat) : List Char → List Char
  | [] => []
  | '\n' :: rest => '\n' :: eraseLines numbers (number + 1) rest
  | '\r' :: '\n' :: rest => '\r' :: '\n' :: eraseLines numbers (number + 1) rest
  | char :: rest =>
    if number ∈ numbers then eraseLines numbers number rest
    else char :: eraseLines numbers number rest

variable {numbers : List Nat} {number : Nat}

theorem eraseLines_cons {char : Char} {rest : List Char} (visible : char ≠ '\n')
    (unpaired : ¬ (char = '\r' ∧ rest.head? = some '\n')) :
    eraseLines numbers number (char :: rest) =
      if number ∈ numbers then eraseLines numbers number rest
      else char :: eraseLines numbers number rest := by
  rw [eraseLines.eq_def]
  split
  · cases ‹_›
  · cases ‹_›
    exact absurd rfl visible
  · cases ‹_›
    exact absurd ⟨rfl, rfl⟩ unpaired
  · cases ‹_›
    rfl

theorem head?_eraseLines (kept : number ∉ numbers) (chars : List Char) :
    (eraseLines numbers number chars).head? = chars.head? := by
  fun_cases eraseLines numbers number chars with
  | case4 char rest h1 h2 dropped => exact absurd dropped kept
  | _ => rfl

theorem exists_splitLines {chars : List Char} (nonempty : chars ≠ []) :
    ∃ first rest, splitLines chars = first :: rest := by
  obtain ⟨char, more, rfl⟩ := List.exists_cons_of_ne_nil nonempty
  apply List.exists_cons_of_length_pos
  rw [length_splitLines_cons]
  split <;> omega

/-- The lines that are left: the erased ones are empty, and the very last line is gone if it was erased
and had no line end. -/
theorem splitLines_eraseLines (numbers : List Nat) (number : Nat) (chars : List Char) :
    ∃ gone, splitLines (eraseLines numbers number chars) ++ gone =
        emptied [] numbers number (splitLines chars) ∧
      (gone = [] ∨
        gone = [[]] ∧ ∃ last ∈ numbers, last + 1 = number + (splitLines chars).length) := by
  fun_induction splitLines chars generalizing number with
  | case1 => exact ⟨[], rfl, .inl rfl⟩
  | case2 rest ih =>
    obtain ⟨gone, lines, last⟩ := ih (number + 1)
    refine ⟨gone, ?_, ?_⟩
    · rw [emptied_cons, ite_self, ← lines]
      rfl
    · rwa [List.length_cons, Nat.add_comm _ 1, ← Nat.add_assoc]
  | case3 rest ih =>
    obtain ⟨gone, lines, last⟩ := ih (number + 1)
    refine ⟨gone, ?_, ?_⟩
    · rw [emptied_cons, ite_self, ← lines]
      rfl
    · rwa [List.length_cons, Nat.add_comm _ 1, ← Nat.add_assoc]
  | case4 char rest visible unpaired ih =>
    have plain : ¬ (char = '\r' ∧ rest.head? = some '\n') := by
      rintro ⟨rfl, first⟩
      obtain ⟨more, rfl⟩ := List.head?_eq_some_iff.mp first
      exact unpaired more rfl rfl
    rw [eraseLines_cons visible plain]
    by_cases alone : rest = []
    · subst alone
      by_cases dropped : number ∈ numbers
      · exact ⟨[[]], by simp [dropped, eraseLines, splitLines, extendFirst, emptied],
          .inr ⟨rfl, number, dropped, rfl⟩⟩
      · exact ⟨[], by simp [dropped, eraseLines, splitLines_cons visible plain, splitLines,
          extendFirst, emptied], .inl rfl⟩
    obtain ⟨gone, lines, last⟩ := ih number
    obtain ⟨first, more, cut⟩ := exists_splitLines alone
    rw [cut, emptied_cons] at lines
    rw [cut] at last
    refine ⟨gone, ?_, by rwa [cut]⟩
    rw [cut, extendFirst, emptied_cons]
    by_cases dropped : number ∈ numbers
    · rw [if_pos dropped, lines, if_pos dropped, if_pos dropped]
    · -- The character stays in front of the first line that is left of the rest.
      have head := head?_eraseLines dropped rest
      have left : eraseLines numbers number rest ≠ [] := by
        intro empty
        rw [empty] at head
        exact alone (List.head?_eq_none_iff.mp head.symm)
      obtain ⟨same, others, cutLeft⟩ := exists_splitLines left
      rw [if_neg dropped, cutLeft] at lines
      obtain ⟨rfl, rest⟩ := List.cons.inj lines
      rw [if_neg dropped, if_neg dropped, splitLines_cons visible (head ▸ plain), cutLeft, ← rest]
      rfl

end AsmLab.Program
