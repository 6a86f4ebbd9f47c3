import AsmLab.Source.Fragment

/-! Where fragments of a known shape are cut: at the end of a name, at blanks around a text that has
none at its ends, and at the commas outside of all brackets. -/
namespace AsmLab.Source

/-- A word that may name something: it starts like a name and goes on like one. -/
def IsName (chars : List Char) : Prop :=
  chars.head?.any isIdentStart = true ∧ ∀ char ∈ chars, isIdent char = true

/-- Text that has no blank at either end. -/
def Trimmed (chars : List Char) : Prop :=
  (∀ char ∈ chars.head?, isBlank char = false) ∧ ∀ char ∈ chars.getLast?, isBlank char = false

theorem isIdent_of_isIdentStart {char : Char} (start : isIdentStart char = true) :
    isIdent char = true := by
  simp only [isIdentStart, isIdent, Char.isAlphanum, Bool.or_eq_true] at start ⊢
  rcases start with (alpha | underscore) | dot
  · exact .inl (.inl (.inl alpha))
  · exact .inl (.inr underscore)
  · exact .inr dot

theorem isBlank_space : isBlank ' ' = true :=
  rfl

theorem isBlank_of_isIdent {char : Char} (ident : isIdent char = true) : isBlank char = false := by
  cases blank : isBlank char with
  | false => rfl
  | true =>
    simp only [isBlank, Bool.or_eq_true, decide_eq_true_eq] at blank
    rcases blank with (((same | same) | same) | same) | same <;> subst same <;>
      exact absurd ident (by decide)

theorem not_mem_of_forall {accepts : Char → Bool} {chars : List Char} (other : Char)
    (accepted : ∀ char ∈ chars, accepts char = true) (rejected : accepts other = false) :
    other ∉ chars := by
  intro member
  simp [accepted other member] at rejected

theorem IsName.ne_nil {chars : List Char} (name : IsName chars) : chars ≠ [] := by
  intro empty
  subst empty
  simp [IsName] at name

theorem trimmed_nil : Trimmed [] := by
  simp [Trimmed]

theorem trimmed_append {front rest : List Char} (nonempty : front ≠ []) (trimmed : Trimmed front)
    (last : ∀ char ∈ rest.getLast?, isBlank char = false) : Trimmed (front ++ rest) := by
  constructor
  · intro char first
    rw [List.head?_append, List.head?_eq_some_head nonempty, Option.some_or,
      ← List.head?_eq_some_head nonempty] at first
    exact trimmed.1 char first
  · intro char final
    rw [List.getLast?_append] at final
    cases found : rest.getLast? with
    | none =>
      rw [found] at final
      exact trimmed.2 char final
    | some other =>
      rw [found] at final
      exact last char (found.trans final)

theorem IsName.trimmed {chars : List Char} (name : IsName chars) : Trimmed chars :=
  ⟨fun char first => isBlank_of_isIdent (name.2 char (List.mem_of_head? first)),
    fun char last => isBlank_of_isIdent (name.2 char (List.mem_of_getLast? last))⟩

namespace Fragment

variable {start : Nat}

theorem takeWhile_append (start : Nat) {accepts : Char → Bool} {front : List Char}
    (rest : List Char)
    (accepted : ∀ char ∈ front, accepts char = true)
    (stopped : ∀ char ∈ rest.head?, accepts char = false) :
    takeWhile ⟨start, front ++ rest⟩ accepts = ⟨start, front⟩ := by
  have stops : rest.takeWhile accepts = [] := by
    cases rest with
    | nil => rfl
    | cons head tail => simp [stopped head rfl]
  simp [takeWhile, List.takeWhile_append_of_pos accepted, stops]

theorem dropWhile_append (start : Nat) {accepts : Char → Bool} {front : List Char}
    (rest : List Char)
    (accepted : ∀ char ∈ front, accepts char = true)
    (stopped : ∀ char ∈ rest.head?, accepts char = false) :
    dropWhile ⟨start, front ++ rest⟩ accepts = ⟨start + front.length, rest⟩ := by
  have taken : (front ++ rest).takeWhile accepts = front :=
    congrArg chars (takeWhile_append start rest accepted stopped)
  have kept : (front ++ rest).dropWhile accepts = rest := by
    have whole := List.takeWhile_append_dropWhile (p := accepts) (l := front ++ rest)
    rw [taken] at whole
    exact List.append_cancel_left whole
  rw [dropWhile, taken, kept]

private theorem dropWhile_head {chars : List Char}
    (first : ∀ char ∈ chars.head?, isBlank char = false) :
    chars.dropWhile isBlank = chars := by
  cases chars with
  | nil => rfl
  | cons head tail => simp [first head rfl]

private theorem takeWhile_head {chars : List Char}
    (first : ∀ char ∈ chars.head?, isBlank char = false) :
    chars.takeWhile isBlank = [] := by
  cases chars with
  | nil => rfl
  | cons head tail => simp [first head rfl]

theorem trim_eq_self {chars : List Char} (trimmed : Trimmed chars) :
    trim ⟨start, chars⟩ = ⟨start, chars⟩ := by
  have last : ∀ char ∈ chars.reverse.head?, isBlank char = false := by
    rw [List.head?_reverse]
    exact trimmed.2
  simp [trim, dropWhile, trimEnd, takeWhile_head trimmed.1, dropWhile_head trimmed.1,
    dropWhile_head last]

theorem mem_of_mem_trim {chars : List Char} {char : Char}
    (member : char ∈ (trim ⟨start, chars⟩).chars) : char ∈ chars := by
  have inside : char ∈ (chars.dropWhile isBlank).reverse.dropWhile isBlank := by
    simpa [trim, trimEnd, dropWhile] using member
  have dropped := List.mem_reverse.mp ((List.dropWhile_sublist isBlank).subset inside)
  exact (List.dropWhile_sublist isBlank).subset dropped

theorem trim_blank_cons {blank : Char} {chars : List Char} (isBlank : isBlank blank = true) :
    trim ⟨start, blank :: chars⟩ = trim ⟨start + 1, chars⟩ := by
  simp [trim, dropWhile, isBlank, Nat.add_assoc, Nat.add_comm 1]

theorem trim_concat_blank {blank : Char} {chars : List Char} (trimmed : Trimmed chars)
    (nonempty : chars ≠ []) (isBlank : isBlank blank = true) :
    trim ⟨start, chars ++ [blank]⟩ = ⟨start, chars⟩ := by
  have first : ∀ char ∈ (chars ++ [blank]).head?, AsmLab.Source.isBlank char = false := by
    intro char head
    rw [List.head?_append, List.head?_eq_some_head nonempty] at head
    exact trimmed.1 char ((List.head?_eq_some_head nonempty).trans head)
  have last : ∀ char ∈ chars.reverse.head?, AsmLab.Source.isBlank char = false := by
    rw [List.head?_reverse]
    exact trimmed.2
  simp [trim, dropWhile, trimEnd, takeWhile_head first, dropWhile_head first, isBlank,
    dropWhile_head last]

theorem splitLast?_concat (char : Char) (front : List Char) :
    splitLast? char ⟨start, front ++ [char]⟩ =
      some (⟨start, front⟩, ⟨start + (front.length + 1), []⟩) := by
  simp [splitLast?, drop]

/-- Scanned from a depth of nesting, no comma stands outside of all brackets, and in the end every
bracket is closed. -/
def Unsplit (nesting : Char → Int) : Int → List Char → Prop
  | depth, [] => depth = 0
  | depth, char :: rest =>
    ¬ (char = ',' ∧ depth = 0) ∧ Unsplit nesting (depth + nesting char) rest

variable {nesting : Char → Int} {depth : Int}

theorem unsplit_append_flat {front rest : List Char}
    (flat : ∀ char ∈ front, nesting char = 0 ∧ ¬ (char = ',' ∧ depth = 0)) :
    Unsplit nesting depth (front ++ rest) ↔ Unsplit nesting depth rest := by
  induction front with
  | nil => rfl
  | cons head tail ih =>
    have flatHead := flat head (by simp)
    have flatTail := ih fun char member => flat char (by simp [member])
    simp only [List.cons_append, Unsplit, flatHead.1, Int.add_zero, flatTail]
    exact ⟨fun split => split.2, fun unsplit => ⟨flatHead.2, unsplit⟩⟩

theorem cutCommas_unsplit (start : Nat) {chars : List Char} (unsplit : Unsplit nesting depth chars) :
    cutCommas nesting depth start chars = [⟨start, chars⟩] := by
  induction chars generalizing depth start with
  | nil => rfl
  | cons head tail ih =>
    rw [cutCommas, if_neg unsplit.1, ih _ unsplit.2]
    rfl

theorem cutCommas_append_comma (start : Nat) {front : List Char} (rest : List Char)
    (unsplit : Unsplit nesting depth front) :
    cutCommas nesting depth start (front ++ ',' :: rest) =
      ⟨start, front⟩ :: cutCommas nesting 0 (start + (front.length + 1)) rest := by
  induction front generalizing depth start with
  | nil =>
    have closed : depth = 0 := unsplit
    simp [cutCommas, closed]
  | cons head tail ih =>
    rw [List.cons_append, cutCommas, if_neg unsplit.1, ih _ unsplit.2]
    simp [extendFirst, Nat.add_comm, Nat.add_left_comm]

theorem splitCommas_single {chars : List Char} (whole : ',' ∉ chars) :
    splitCommas ⟨start, chars⟩ = [⟨start, chars⟩] := by
  apply cutCommas_unsplit
  rw [← List.append_nil chars, unsplit_append_flat]
  · rfl
  · intro char member
    exact ⟨rfl, fun comma => whole (comma.1 ▸ member)⟩

theorem splitCommas_append {front rest : List Char} (whole : ',' ∉ front) :
    splitCommas ⟨start, front ++ ',' :: rest⟩ =
      ⟨start, front⟩ :: splitCommas ⟨start + (front.length + 1), rest⟩ := by
  apply cutCommas_append_comma
  rw [← List.append_nil front, unsplit_append_flat]
  · rfl
  · intro char member
    exact ⟨rfl, fun comma => whole (comma.1 ▸ member)⟩

end Fragment

end AsmLab.Source
