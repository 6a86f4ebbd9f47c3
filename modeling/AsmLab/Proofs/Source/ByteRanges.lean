import AsmLab.Proofs.Source.Bytewise
import AsmLab.Proofs.Source.FragmentParts

/-! Ranges of bytes that hold fragments of a line. Scanning, trimming and cutting a range stay at the
boundaries of characters, and do to its bytes what the readers do to its characters. -/
namespace AsmLab.Source

/-- The fragment has the characters that a range of bytes encodes, and starts at their column. -/
def Fragment.LiesAt (text : String) (range : Span) (fragment : Fragment) : Prop :=
  ∃ before after, text.toList = before ++ fragment.chars ++ after ∧
    fragment.start = before.length ∧
    range = ⟨byteLength before, byteLength before + byteLength fragment.chars⟩

namespace Fragment.LiesAt

open Bytewise

variable {text : String} {range : Span} {fragment : Fragment} {start : Nat}
  {first second chars : List Char} {char : Char}

theorem whole (text : String) : (Fragment.ofString text).LiesAt text ⟨0, text.utf8ByteSize⟩ :=
  ⟨[], [], by simp [Fragment.ofString], rfl, by simp [Fragment.ofString, byteLength_toList]⟩

theorem stop_eq (lies : fragment.LiesAt text range) :
    range.stop = range.start + byteLength fragment.chars := by
  obtain ⟨before, after, _, _, rfl⟩ := lies
  rfl

theorem split (lies : LiesAt text range ⟨start, first ++ second⟩) :
    LiesAt text ⟨range.start, range.start + byteLength first⟩ ⟨start, first⟩ ∧
      LiesAt text ⟨range.start + byteLength first, range.stop⟩
        ⟨start + first.length, second⟩ := by
  obtain ⟨before, after, whole, rfl, rfl⟩ := lies
  constructor
  · exact ⟨before, second ++ after, by simpa using whole, rfl, rfl⟩
  · refine ⟨before ++ first, after, by simpa using whole, by simp, ?_⟩
    simp [Nat.add_assoc]

theorem columns (lies : fragment.LiesAt text range) :
    columnAt? text.toList range.start = some fragment.start ∧
      columnAt? text.toList range.stop = some fragment.stop := by
  obtain ⟨before, after, whole, start, rfl⟩ := lies
  constructor
  · rw [whole, List.append_assoc, columnAt?_byteLength, start]
  · have stop := columnAt?_byteLength (before ++ fragment.chars) after
    rw [byteLength_append, List.length_append, ← whole, ← start] at stop
    exact stop

theorem isEmpty_eq (lies : fragment.LiesAt text range) : range.isEmpty = fragment.isEmpty := by
  rw [Span.isEmpty, lies.stop_eq, Fragment.isEmpty]
  cases chars : fragment.chars with
  | nil => simp
  | cons char rest =>
    have taken := char.utf8Size_pos
    simp only [byteLength_cons, List.isEmpty_cons, decide_eq_false_iff_not]
    omega

theorem slice_eq (lies : fragment.LiesAt text range) : slice text range = .ok fragment.chars := by
  obtain ⟨first, last⟩ := lies.columns
  obtain ⟨before, after, whole, start, rfl⟩ := lies
  have ordered : fragment.start ≤ fragment.stop := Nat.le_add_right _ _
  have taken : (before ++ fragment.chars ++ after).take fragment.stop = before ++ fragment.chars := by
    rw [Fragment.stop, start, ← List.length_append, List.take_left]
  have dropped : (before ++ fragment.chars).drop fragment.start = fragment.chars := by
    rw [start, List.drop_left]
  simp only [slice, first, last, if_pos ordered]
  rw [whole, taken, dropped]

/-- Each byte of a character shows it, if it is one of ASCII. -/
theorem byteAt_head (lies : LiesAt text range ⟨start, char :: chars⟩) {index : Nat}
    (inside : index < char.utf8Size) :
    ∃ byte, byteAt text (range.start + index) = .ok byte ∧ ascii? byte = shown? char := by
  obtain ⟨before, after, whole, _, rfl⟩ := lies
  obtain ⟨byte, found, shows⟩ := exists_byte char inside
  have stored : (bytes text)[byteLength before + index]? = some byte := by
    have inFront : index < (String.utf8EncodeChar char).length := by
      rwa [String.length_utf8EncodeChar]
    rw [bytes_eq, whole, List.append_assoc, encode_append, byteLength,
      List.getElem?_append_right (Nat.le_add_right _ _), Nat.add_sub_cancel_left,
      List.cons_append, encode_cons, List.getElem?_append_left inFront, found]
  exact ⟨byte, by rw [byteAt, stored], shows⟩

theorem exists_head (lies : fragment.LiesAt text range) (nonempty : fragment.chars ≠ []) :
    ∃ byte, byteAt text range.start = .ok byte ∧ ascii? byte = fragment.head?.bind shown? := by
  obtain ⟨start, chars⟩ := fragment
  obtain ⟨char, rest, rfl⟩ := List.exists_cons_of_ne_nil nonempty
  exact lies.byteAt_head char.utf8Size_pos

theorem exists_first (lies : fragment.LiesAt text range) :
    ∃ found, first? text range = .ok found ∧ ∀ accepts : Option Char → Bool,
      found.any (fun byte => accepts (ascii? byte)) =
        fragment.head?.any fun char => accepts (shown? char) := by
  obtain ⟨start, chars⟩ := fragment
  unfold first?
  rw [lies.isEmpty_eq]
  cases chars with
  | nil => exact ⟨none, rfl, fun _ => rfl⟩
  | cons char rest =>
    obtain ⟨byte, found, shows⟩ := lies.byteAt_head char.utf8Size_pos
    refine ⟨some byte, ?_, fun accepts => congrArg accepts shows⟩
    rw [Nat.add_zero] at found
    rw [found]
    rfl

/-- A fragment lies in one place. -/
theorem unique {other : Span} (lies : fragment.LiesAt text range)
    (alike : fragment.LiesAt text other) : other = range := by
  obtain ⟨before, after, whole, start, rfl⟩ := lies
  obtain ⟨others, _, same, otherStart, rfl⟩ := alike
  have length : before.length = others.length := start.symm.trans otherStart
  rw [whole, List.append_assoc, List.append_assoc] at same
  rw [(List.append_inj same length).1]

theorem start_lt_stop (lies : LiesAt text range ⟨start, char :: chars⟩) :
    range.start < range.stop := by
  have taken := char.utf8Size_pos
  have stop := lies.stop_eq
  rw [byteLength_cons] at stop
  omega

theorem lt_iff (lies : fragment.LiesAt text range) :
    range.start < range.stop ↔ fragment.chars ≠ [] := by
  rw [lies.stop_eq, Ne, ← byteLength_eq_zero]
  omega

theorem tail (lies : LiesAt text range ⟨start, char :: chars⟩) :
    LiesAt text ⟨range.start + char.utf8Size, range.stop⟩ ⟨start + 1, chars⟩ := by
  have apart : LiesAt text range ⟨start, [char] ++ chars⟩ := lies
  simpa using apart.split.2

theorem drop_one (lies : fragment.LiesAt text range) (head : fragment.head? = some char)
    (ascii : char.toNat < 128) :
    (fragment.drop 1).LiesAt text ⟨range.start + 1, range.stop⟩ := by
  obtain ⟨start, chars⟩ := fragment
  obtain ⟨rest, rfl⟩ := List.head?_eq_some_iff.mp head
  have later := lies.tail
  rw [utf8Size_of_ascii ascii] at later
  exact later

theorem scan_eq {accepts : Char → Bool} (asciiOnly : AsciiOnly accepts)
    (lies : LiesAt text range ⟨start, chars⟩) :
    scan text accepts range.start range.stop =
      .ok (range.start + byteLength (chars.takeWhile accepts)) := by
  induction chars generalizing range start with
  | nil =>
    have stop : range.stop = range.start := lies.stop_eq
    rw [scan, stop, if_neg (Nat.lt_irrefl _)]
    rfl
  | cons char rest ih =>
    obtain ⟨byte, found, shows⟩ := lies.byteAt_head char.utf8Size_pos
    rw [Nat.add_zero] at found
    have later := ih lies.tail
    rw [scan, if_pos lies.start_lt_stop, found]
    simp only [bind, Except.bind, shows, shown?_any asciiOnly, List.takeWhile_cons]
    split
    · rename_i accepted
      have single := utf8Size_of_ascii (asciiOnly char accepted)
      simp only [single] at later
      rw [later, byteLength_cons, single, Nat.add_assoc]
    · rfl

theorem exists_scan {accepts : Char → Bool} (asciiOnly : AsciiOnly accepts)
    (lies : fragment.LiesAt text range) :
    ∃ stop, scan text accepts range.start range.stop = .ok stop ∧
      (fragment.takeWhile accepts).LiesAt text ⟨range.start, stop⟩ ∧
      (fragment.dropWhile accepts).LiesAt text ⟨stop, range.stop⟩ := by
  obtain ⟨start, chars⟩ := fragment
  refine ⟨_, scan_eq asciiOnly lies, ?_⟩
  rw [← List.takeWhile_append_dropWhile (p := accepts) (l := chars)] at lies
  exact lies.split

theorem scanBack_eq (lies : LiesAt text range ⟨start, chars⟩) :
    scanBack text range.start range.stop =
      .ok (range.start + byteLength (chars.reverse.dropWhile isBlank).reverse) := by
  induction chars using List.reverseRecOn generalizing range with
  | nil =>
    have stop : range.stop = range.start := lies.stop_eq
    rw [scanBack, stop, if_neg (Nat.lt_irrefl _)]
    rfl
  | append_singleton front char ih =>
    obtain ⟨inFront, last⟩ := lies.split
    have taken := char.utf8Size_pos
    have stop : range.stop = range.start + byteLength front + char.utf8Size := by
      rw [lies.stop_eq, byteLength_append, byteLength_cons, byteLength_nil]
      omega
    obtain ⟨byte, found, shows⟩ := last.byteAt_head (Nat.sub_lt taken Nat.one_pos)
    have position : range.stop - 1 = range.start + byteLength front + (char.utf8Size - 1) := by
      omega
    rw [scanBack, if_pos (by omega), position, found, List.reverse_concat]
    simp only [bind, Except.bind, shows, shown?_any asciiOnly_isBlank, List.dropWhile_cons]
    split
    · rename_i blank
      rw [utf8Size_of_ascii (asciiOnly_isBlank char blank)]
      exact ih inFront
    · rw [List.reverse_cons, List.reverse_reverse, byteLength_append, byteLength_cons,
        byteLength_nil, stop, Nat.add_assoc]
      rfl

theorem exists_scanBack (lies : fragment.LiesAt text range) :
    ∃ stop, scanBack text range.start range.stop = .ok stop ∧
      fragment.trimEnd.LiesAt text ⟨range.start, stop⟩ := by
  obtain ⟨start, chars⟩ := fragment
  have apart : chars = (chars.reverse.dropWhile isBlank).reverse ++
      (chars.reverse.takeWhile isBlank).reverse := by
    rw [← List.reverse_append, List.takeWhile_append_dropWhile, List.reverse_reverse]
  refine ⟨_, scanBack_eq lies, ?_⟩
  rw [apart] at lies
  exact lies.split.1

theorem exists_trim (lies : fragment.LiesAt text range) :
    ∃ trimmed, Bytewise.trim text range = .ok trimmed ∧ fragment.trim.LiesAt text trimmed := by
  obtain ⟨start, scanned, _, rest⟩ := lies.exists_scan asciiOnly_isBlank
  obtain ⟨stop, back, trimmed⟩ := rest.exists_scanBack
  refine ⟨⟨start, stop⟩, ?_, trimmed⟩
  simp only [Bytewise.trim, scanned, back, bind, Except.bind, pure, Except.pure]

/-- Trimming a fragment that ends in no blank leaves its end. -/
theorem trim_stop {trimmed : Span} (lies : fragment.LiesAt text range)
    (last : ∀ char ∈ fragment.chars.getLast?, isBlank char = false)
    (trimmedLies : fragment.trim.LiesAt text trimmed) : trimmed.stop = range.stop := by
  obtain ⟨stop, _, _, rest⟩ := lies.exists_scan asciiOnly_isBlank
  have same : fragment.trim = fragment.dropWhile isBlank :=
    Fragment.trim_eq_dropWhile fragment.start last
  rw [same] at trimmedLies
  rw [rest.unique trimmedLies]

end Fragment.LiesAt

namespace Fragment

variable {nesting : Char → Int} {depth : Int}

/-- Puts text in front of the first of some pieces. -/
def extendBy (start : Nat) (pending : List Char) : List Fragment → List Fragment
  | [] => [⟨start, pending⟩]
  | piece :: rest => ⟨start, pending ++ piece.chars⟩ :: rest

theorem exists_cutCommas (nesting : Char → Int) (depth : Int) (start : Nat) (chars : List Char) :
    ∃ piece rest, cutCommas nesting depth start chars = ⟨start, piece⟩ :: rest := by
  cases chars with
  | nil => exact ⟨_, _, rfl⟩
  | cons char rest =>
    rw [cutCommas]
    split
    · exact ⟨_, _, rfl⟩
    · cases cutCommas nesting (depth + nesting char) (start + 1) rest <;> exact ⟨_, _, rfl⟩

theorem extendBy_nil (start : Nat) (chars : List Char) :
    extendBy start [] (cutCommas nesting depth start chars) =
      cutCommas nesting depth start chars := by
  obtain ⟨piece, rest, pieces⟩ := exists_cutCommas nesting depth start chars
  rw [pieces]
  rfl

theorem extendBy_extendFirst (start column : Nat) (pending : List Char) (char : Char)
    (pieces : List Fragment) :
    extendBy start pending (extendFirst column char pieces) =
      extendBy start (pending ++ [char]) pieces := by
  cases pieces <;> simp [extendBy, extendFirst]

end Fragment

namespace Fragment.LiesAt

open Bytewise

variable {text : String} {nesting : Char → Int} {depth : Int} {start first position stop : Nat}
  {pending chars : List Char} {char : Char}

/-- A character that does not end a piece is passed as a whole. -/
theorem cut_skip (flat : ∀ char, shown? char = none → nesting char = 0)
    (inside : ¬ (char = ',' ∧ depth = 0))
    (lies : LiesAt text ⟨position, stop⟩ ⟨start, char :: chars⟩) :
    cut text nesting depth first position stop =
      cut text nesting (depth + nesting char) first (position + char.utf8Size) stop := by
  have ends : stop = position + (char.utf8Size + byteLength chars) := by
    rw [← byteLength_cons]
    exact lies.stop_eq
  by_cases ascii : char.toNat < 128
  · have single := utf8Size_of_ascii ascii
    have shown : shown? char = some char := if_pos ascii
    obtain ⟨byte, found, shows⟩ := lies.byteAt_head char.utf8Size_pos
    rw [cut, if_pos (by omega), ← Nat.add_zero position, found]
    simp only [bind, Except.bind, shows, shown, Option.some.injEq, if_neg inside, single,
      Option.elim_some, Nat.add_zero]
  · have hidden : shown? char = none := if_neg ascii
    have passed (count : Nat) (within : count ≤ char.utf8Size) :
        cut text nesting depth first position stop =
          cut text nesting depth first (position + count) stop := by
      induction count with
      | zero => rfl
      | succ count ih =>
        obtain ⟨byte, found, shows⟩ := lies.byteAt_head within
        rw [ih (Nat.le_of_succ_le within), cut, if_pos (by omega), found]
        simp [bind, Except.bind, shows, hidden, Nat.add_assoc]
    rw [flat char hidden, Int.add_zero]
    exact passed _ (Nat.le_refl _)

theorem exists_cut (flat : ∀ char, shown? char = none → nesting char = 0) (depth : Int)
    (lies : LiesAt text ⟨first, stop⟩ ⟨start, pending ++ chars⟩) :
    ∃ ranges, cut text nesting depth first (first + byteLength pending) stop = .ok ranges ∧
      List.Forall₂ (LiesAt text) ranges (extendBy start pending
        (cutCommas nesting depth (start + pending.length) chars)) := by
  induction chars generalizing depth first start pending with
  | nil =>
    rw [List.append_nil] at lies
    have ends : stop = first + byteLength pending := lies.stop_eq
    refine ⟨[⟨first, stop⟩], ?_, ?_⟩
    · rw [cut, if_neg (by omega)]
      rfl
    · simpa [cutCommas, extendBy] using lies
  | cons char rest ih =>
    obtain ⟨current, later⟩ := lies.split
    by_cases ends : char = ',' ∧ depth = 0
    · obtain ⟨rfl, rfl⟩ := ends
      have next : LiesAt text ⟨first + byteLength pending + 1, stop⟩
          ⟨start + pending.length + 1, [] ++ rest⟩ := later.tail
      obtain ⟨ranges, pieces, placed⟩ := ih 0 next
      obtain ⟨byte, found, shows⟩ := later.byteAt_head (Char.utf8Size_pos ',')
      have separator : ascii? byte = some ',' := shows.trans (if_pos (by decide))
      have before : first + byteLength pending < stop := later.start_lt_stop
      refine ⟨⟨first, first + byteLength pending⟩ :: ranges, ?_, ?_⟩
      · rw [cut, if_pos before, ← Nat.add_zero (first + byteLength pending), found]
        simp only [bind, Except.bind, separator, true_and, if_pos, Nat.add_zero]
        rw [byteLength_nil, Nat.add_zero] at pieces
        rw [pieces]
        rfl
      · rw [List.length_nil, Nat.add_zero, extendBy_nil] at placed
        rw [cutCommas, if_pos ⟨rfl, rfl⟩, extendBy, List.append_nil]
        exact .cons current placed
    · have next : LiesAt text ⟨first, stop⟩ ⟨start, (pending ++ [char]) ++ rest⟩ := by
        rwa [List.append_assoc]
      obtain ⟨ranges, pieces, placed⟩ := ih (depth + nesting char) next
      rw [byteLength_append, byteLength_cons, byteLength_nil, Nat.add_zero, ← Nat.add_assoc]
        at pieces
      rw [List.length_append, List.length_singleton, ← Nat.add_assoc] at placed
      refine ⟨ranges, (cut_skip flat ends later).trans pieces, ?_⟩
      rw [cutCommas, if_neg ends, extendBy_extendFirst]
      exact placed

theorem exists_pieces {fragment : Fragment} {range : Span}
    (flat : ∀ char, shown? char = none → nesting char = 0) (lies : fragment.LiesAt text range) :
    ∃ ranges, cut text nesting 0 range.start range.start range.stop = .ok ranges ∧
      List.Forall₂ (LiesAt text) ranges (cutCommas nesting 0 fragment.start fragment.chars) := by
  have pending : LiesAt text ⟨range.start, range.stop⟩ ⟨fragment.start, [] ++ fragment.chars⟩ :=
    lies
  obtain ⟨ranges, pieces, placed⟩ := exists_cut flat 0 pending
  rw [List.length_nil, Nat.add_zero, extendBy_nil] at placed
  exact ⟨ranges, pieces, placed⟩

theorem exists_trims {ranges : List Span} {fragments : List Fragment}
    (placed : List.Forall₂ (LiesAt text) ranges fragments) :
    ∃ trimmed, ranges.mapM (Bytewise.trim text) = .ok trimmed ∧
      List.Forall₂ (LiesAt text) trimmed (fragments.map Fragment.trim) := by
  induction placed with
  | nil => exact ⟨[], rfl, .nil⟩
  | cons lies later ih =>
    obtain ⟨range, done, trimmed⟩ := lies.exists_trim
    obtain ⟨ranges, rest, placed⟩ := ih
    refine ⟨range :: ranges, ?_, .cons trimmed placed⟩
    rw [List.mapM_cons, done, rest]
    rfl

end Fragment.LiesAt

namespace Bytewise

variable {wanted : Char} {chars : List Char}

theorem find?_append (front rest : List Char) (absent : wanted ∉ front) :
    find? wanted (front ++ wanted :: rest) = some (byteLength front) := by
  induction front with
  | nil => simp [find?]
  | cons char front ih =>
    rw [List.mem_cons, not_or] at absent
    obtain ⟨other, later⟩ := absent
    rw [List.cons_append, find?, if_neg (Ne.symm other), ih later, byteLength_cons]
    rfl

theorem find?_eq_none (absent : wanted ∉ chars) : find? wanted chars = none := by
  induction chars with
  | nil => rfl
  | cons char rest ih =>
    rw [List.mem_cons, not_or] at absent
    obtain ⟨other, later⟩ := absent
    rw [find?, if_neg (Ne.symm other), ih later]
    rfl

theorem findLast?_eq_none (absent : wanted ∉ chars) : findLast? wanted chars = none := by
  induction chars with
  | nil => rfl
  | cons char rest ih =>
    rw [List.mem_cons, not_or] at absent
    obtain ⟨other, later⟩ := absent
    simp only [findLast?, ih later, if_neg (Ne.symm other)]

theorem findLast?_append (front : List Char) {after : List Char} (absent : wanted ∉ after) :
    findLast? wanted (front ++ wanted :: after) = some (byteLength front) := by
  induction front with
  | nil => simp [findLast?, findLast?_eq_none absent]
  | cons char front ih => simp only [List.cons_append, findLast?, ih, byteLength_cons]

end Bytewise

end AsmLab.Source
