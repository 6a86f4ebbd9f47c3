import AsmLab.Proofs.Source.ConstantText
import AsmLab.Proofs.Source.NumberGrammar

/-! Text with all its letters raised to upper case. Blanks, identifiers, digits and punctuation are told
apart without regard to letter case, so cutting a raised text gives the raised pieces, at the same
columns, and a raised numeral is the same number. -/
namespace AsmLab

namespace Source

/-- The letters that are changed by raising them, and what they become. -/
def raisedLetters : List (Char × Char) :=
  [('a', 'A'), ('b', 'B'), ('c', 'C'), ('d', 'D'), ('e', 'E'), ('f', 'F'), ('g', 'G'),
    ('h', 'H'), ('i', 'I'), ('j', 'J'), ('k', 'K'), ('l', 'L'), ('m', 'M'), ('n', 'N'),
    ('o', 'O'), ('p', 'P'), ('q', 'Q'), ('r', 'R'), ('s', 'S'), ('t', 'T'), ('u', 'U'),
    ('v', 'V'), ('w', 'W'), ('x', 'X'), ('y', 'Y'), ('z', 'Z')]

def raise (text : String) : String :=
  text.map Char.toUpper

section Characters

theorem toUpper_eq_self_or_mem (char : Char) :
    char.toUpper = char ∨ (char, char.toUpper) ∈ raisedLetters := by
  by_cases lower : char.isLower = true
  · right
    have letters (offset : Nat) (small : offset < 26) :
        (Char.ofNat (97 + offset), Char.ofNat (97 + offset - 32)) ∈ raisedLetters := by
      interval_cases offset <;> decide
    obtain ⟨low, high⟩ : 97 ≤ char.toNat ∧ char.toNat ≤ 122 := by
      simpa [Char.isLower, UInt32.le_iff_toNat_le] using lower
    have listed := letters (char.toNat - 97) (by omega)
    rwa [Nat.add_sub_cancel' low, Char.ofNat_toNat, ← Char.toUpper_eq_of_isLower lower] at listed
  · left
    exact Char.toUpper_eq_of_not_isLower lower

/-- What is read from a character does not depend on its case if it does not for any letter. -/
theorem toUpper_invariant {Value : Type} (reads : Char → Value)
    (letters : ∀ pair ∈ raisedLetters, reads pair.2 = reads pair.1) (char : Char) :
    reads char.toUpper = reads char := by
  rcases toUpper_eq_self_or_mem char with same | lower
  · rw [same]
  · exact letters _ lower

theorem isBlank_toUpper (char : Char) : isBlank char.toUpper = isBlank char :=
  toUpper_invariant isBlank (by decide) char

theorem isIdent_toUpper (char : Char) : isIdent char.toUpper = isIdent char :=
  toUpper_invariant isIdent (by decide) char

theorem isIdentStart_toUpper (char : Char) : isIdentStart char.toUpper = isIdentStart char :=
  toUpper_invariant isIdentStart (by decide) char

theorem digit?_toUpper (char : Char) : Numeral.digit? char.toUpper = Numeral.digit? char :=
  toUpper_invariant Numeral.digit? (by decide) char

/-- A character that is no letter. -/
def Unlettered (wanted : Char) : Prop :=
  ∀ pair ∈ raisedLetters, pair.2 ≠ wanted ∧ pair.1 ≠ wanted

instance (wanted : Char) : Decidable (Unlettered wanted) :=
  inferInstanceAs (Decidable (∀ pair ∈ raisedLetters, pair.2 ≠ wanted ∧ pair.1 ≠ wanted))

theorem toUpper_eq_iff {wanted : Char} (other : Unlettered wanted) (char : Char) :
    char.toUpper = wanted ↔ char = wanted := by
  rcases toUpper_eq_self_or_mem char with same | lower
  · rw [same]
  · obtain ⟨raised, itself⟩ := other _ lower
    exact iff_of_false raised itself

theorem ne_toUpper {wanted : Char} (other : Unlettered wanted) (char : Char) :
    decide (char.toUpper ≠ wanted) = decide (char ≠ wanted) :=
  decide_eq_decide.mpr (toUpper_eq_iff other char).not

theorem mem_map_toUpper {wanted : Char} (other : Unlettered wanted) {chars : List Char} :
    wanted ∈ chars.map Char.toUpper ↔ wanted ∈ chars := by
  simp [toUpper_eq_iff other]

theorem head?_map_toUpper {wanted : Char} (other : Unlettered wanted) {chars : List Char} :
    (chars.map Char.toUpper).head? = some wanted ↔ chars.head? = some wanted := by
  simp [List.head?_map, toUpper_eq_iff other]

end Characters

theorem map_takeWhile_raised {accepts : Char → Bool}
    (caseless : ∀ char : Char, accepts char.toUpper = accepts char) (chars : List Char) :
    (chars.map Char.toUpper).takeWhile accepts = (chars.takeWhile accepts).map Char.toUpper := by
  rw [List.takeWhile_map]
  exact congrArg (fun test => (chars.takeWhile test).map Char.toUpper) (funext caseless)

theorem map_dropWhile_raised {accepts : Char → Bool}
    (caseless : ∀ char : Char, accepts char.toUpper = accepts char) (chars : List Char) :
    (chars.map Char.toUpper).dropWhile accepts = (chars.dropWhile accepts).map Char.toUpper := by
  rw [List.dropWhile_map]
  exact congrArg (fun test => (chars.dropWhile test).map Char.toUpper) (funext caseless)

namespace Fragment

/-- The fragment with its letters raised, at the same columns. -/
def raised (fragment : Fragment) : Fragment :=
  ⟨fragment.start, fragment.chars.map Char.toUpper⟩

variable (fragment : Fragment)

@[simp]
theorem start_raised : fragment.raised.start = fragment.start :=
  rfl

@[simp]
theorem chars_raised : fragment.raised.chars = fragment.chars.map Char.toUpper :=
  rfl

@[simp]
theorem stop_raised : fragment.raised.stop = fragment.stop := by
  simp [stop]

@[simp]
theorem span_raised : fragment.raised.span = fragment.span := by
  simp [span]

@[simp]
theorem isEmpty_raised : fragment.raised.isEmpty = fragment.isEmpty := by
  simp [isEmpty]

@[simp]
theorem text_raised : fragment.raised.text = raise fragment.text := by
  apply String.toList_inj.mp
  simp [text, raise]

@[simp]
theorem drop_raised (count : Nat) : fragment.raised.drop count = (fragment.drop count).raised := by
  simp [drop, raised]

theorem head?_raised {wanted : Char} (other : Unlettered wanted) :
    fragment.raised.head? = some wanted ↔ fragment.head? = some wanted :=
  head?_map_toUpper other

theorem any_head?_raised {accepts : Char → Bool}
    (caseless : ∀ char : Char, accepts char.toUpper = accepts char) :
    fragment.raised.head?.any accepts = fragment.head?.any accepts := by
  simp [head?, List.head?_map, Option.any_map, caseless]

section Caseless

variable {accepts : Char → Bool} (caseless : ∀ char : Char, accepts char.toUpper = accepts char)
include caseless

theorem takeWhile_raised : fragment.raised.takeWhile accepts = (fragment.takeWhile accepts).raised := by
  simp [takeWhile, raised, map_takeWhile_raised caseless]

theorem dropWhile_raised : fragment.raised.dropWhile accepts = (fragment.dropWhile accepts).raised := by
  simp [dropWhile, raised, map_takeWhile_raised caseless, map_dropWhile_raised caseless]

end Caseless

theorem takeWhile_ne_raised {wanted : Char} (other : Unlettered wanted) :
    fragment.raised.takeWhile (· ≠ wanted) = (fragment.takeWhile (· ≠ wanted)).raised :=
  fragment.takeWhile_raised (ne_toUpper other)

theorem dropWhile_ne_raised {wanted : Char} (other : Unlettered wanted) :
    fragment.raised.dropWhile (· ≠ wanted) = (fragment.dropWhile (· ≠ wanted)).raised :=
  fragment.dropWhile_raised (ne_toUpper other)

@[simp]
theorem trim_raised : fragment.raised.trim = fragment.trim.raised := by
  rw [trim, dropWhile_raised _ isBlank_toUpper, trim]
  simp only [trimEnd, raised, ← List.map_reverse, map_dropWhile_raised isBlank_toUpper]

theorem splitLast?_raised {char : Char} (other : Unlettered char) :
    fragment.raised.splitLast? char =
      (fragment.splitLast? char).map fun (front, after) => (front.raised, after.raised) := by
  have after : ((fragment.chars.map Char.toUpper).reverse.takeWhile (· ≠ char)).reverse.length =
      (fragment.chars.reverse.takeWhile (· ≠ char)).reverse.length := by
    rw [← List.map_reverse, map_takeWhile_raised (ne_toUpper other), ← List.map_reverse,
      List.length_map]
  unfold splitLast?
  simp only [chars_raised, after, List.length_map, start_raised, drop_raised]
  split
  · simp [raised, List.map_take]
  · rfl

theorem extendFirst_raised (start : Nat) (char : Char) (pieces : List Fragment) :
    extendFirst start char.toUpper (pieces.map raised) = (extendFirst start char pieces).map raised := by
  cases pieces <;> rfl

theorem cutCommas_raised {nesting : Char → Int}
    (caseless : ∀ char : Char, nesting char.toUpper = nesting char) (depth : Int) (start : Nat)
    (chars : List Char) :
    cutCommas nesting depth start (chars.map Char.toUpper) =
      (cutCommas nesting depth start chars).map raised := by
  have comma (char : Char) := toUpper_eq_iff (show Unlettered ',' by decide) char
  induction chars generalizing depth start with
  | nil => rfl
  | cons char rest ih =>
    simp only [List.map_cons, cutCommas, comma, caseless, ih, extendFirst_raised]
    split <;> rfl

@[simp]
theorem splitCommas_raised : fragment.raised.splitCommas = fragment.splitCommas.map raised :=
  cutCommas_raised (fun _ => rfl) 0 fragment.start fragment.chars

@[simp]
theorem splitOuterCommas_raised :
    fragment.raised.splitOuterCommas = fragment.splitOuterCommas.map raised :=
  cutCommas_raised (toUpper_invariant parenthesisNesting (by decide)) 0 fragment.start
    fragment.chars

end Fragment

@[simp]
theorem ofName?_raise (name : String) : Register.ofName? (raise name) = Register.ofName? name := by
  have lower : (raise name).map Char.toLower = name.map Char.toLower := by
    apply String.toList_inj.mp
    simp [raise]
  simp only [Register.ofName?, lower]

section Numerals

variable {base : Nat} (chars : List Char)

theorem digitBelow?_toUpper (char : Char) :
    Numeral.digitBelow? base char.toUpper = Numeral.digitBelow? base char := by
  rw [Numeral.digitBelow?, digit?_toUpper, Numeral.digitBelow?]

theorem isNumeral_raised :
    Numeral.isNumeral base (chars.map Char.toUpper) = Numeral.isNumeral base chars := by
  have digits : Numeral.isDigit base ∘ Char.toUpper = Numeral.isDigit base := by
    funext char
    simp [Numeral.isDigit, digitBelow?_toUpper]
  simp [Numeral.isNumeral, digits]

theorem value_raised : Numeral.value base (chars.map Char.toUpper) = Numeral.value base chars := by
  simp [Numeral.value, List.foldl_map, digitBelow?_toUpper]

theorem splitMinus_raised :
    splitMinus (chars.map Char.toUpper) =
      ((splitMinus chars).1, (splitMinus chars).2.map Char.toUpper) := by
  have minus (char : Char) := toUpper_eq_iff (show Unlettered '-' by decide) char
  cases chars with
  | nil => rfl
  | cons char rest =>
    by_cases same : char = '-'
    · subst same
      rfl
    · have raised : char.toUpper ≠ '-' := (minus char).not.mpr same
      simp [splitMinus, same, raised]

theorem toUpper_marker_iff (char : Char) :
    char.toUpper = 'x' ∨ char.toUpper = 'X' ↔ char = 'x' ∨ char = 'X' := by
  have same := toUpper_invariant (fun char => decide (char = 'x' ∨ char = 'X')) (by decide) char
  exact decide_eq_decide.mp same

/-- The marker is one in either case, also when it is raised itself. -/
theorem afterHexMarker?_raised :
    afterHexMarker? (chars.map Char.toUpper) =
      (afterHexMarker? chars).map (List.map Char.toUpper) := by
  cases found : afterHexMarker? chars with
  | some digits =>
    obtain ⟨marker, marked, rfl⟩ := exists_marker_of_afterHexMarker? found
    exact afterHexMarker?_cons ((toUpper_marker_iff marker).mpr marked) _
  | none =>
    cases raised : afterHexMarker? (chars.map Char.toUpper) with
    | none => rfl
    | some digits =>
      obtain ⟨marker, marked, same⟩ := exists_marker_of_afterHexMarker? raised
      obtain ⟨zero, behind, rfl, isZero, same⟩ := List.map_eq_cons_iff.mp same
      obtain ⟨lower, rest, rfl, rfl, -⟩ := List.map_eq_cons_iff.mp same
      obtain rfl := (toUpper_eq_iff (by decide) zero).mp isZero
      rw [afterHexMarker?_cons ((toUpper_marker_iff lower).mp marked)] at found
      cases found

/-- An immediate is the same number with the same digits, or is refused for the same kind of reason. -/
theorem readImmediate_raised (bits : Nat) :
    (readImmediate bits (chars.map Char.toUpper)).mapError ErrorCause.kind =
      (readImmediate bits chars).mapError ErrorCause.kind := by
  unfold readImmediate
  simp only [← List.map_tail, splitMinus_raised, afterHexMarker?_raised]
  cases afterHexMarker? (splitMinus chars.tail).2 with
  | some digits =>
    simp only [Option.map_some, isNumeral_raised, value_raised, List.length_map]
    split
    · rfl
    · split <;> rfl
  | none =>
    simp only [Option.map_none, isNumeral_raised, value_raised]
    split
    · rfl
    · split
      · rfl
      · split <;> rfl

theorem readSignedHex?_raised :
    readSignedHex? (chars.map Char.toUpper) = readSignedHex? chars := by
  have plus (char : Char) := toUpper_eq_iff (show Unlettered '+' by decide) char
  by_cases signed : ∃ rest, chars = '+' :: rest
  · obtain ⟨rest, rfl⟩ := signed
    simp [readSignedHex?, isNumeral_raised, value_raised]
  · have other : ¬ ∃ rest, chars.map Char.toUpper = '+' :: rest := by
      rintro ⟨rest, same⟩
      obtain ⟨first, behind, rfl, raised, -⟩ := List.map_eq_cons_iff.mp same
      exact signed ⟨behind, by rw [(plus first).mp raised]⟩
    simp only [not_exists] at signed other
    unfold readSignedHex?
    simp only [splitMinus_raised, isNumeral_raised, value_raised]

theorem readDisplacement?_raised :
    readDisplacement? (chars.map Char.toUpper) = readDisplacement? chars := by
  unfold readDisplacement?
  simp only [splitMinus_raised, afterHexMarker?_raised]
  cases afterHexMarker? (splitMinus chars).2 with
  | some digits => simp only [Option.map_some, readSignedHex?_raised]
  | none => simp only [Option.map_none, readDecimal?, isNumeral_raised, value_raised]

end Numerals

end Source

end AsmLab
