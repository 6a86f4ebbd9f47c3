import AsmLab.Proofs.Toml.WrittenValues

/-! Documents read back from their written form: keys, which are quoted if they have to be, the paths of
headings and pairs, and the statements one after the other. -/
namespace AsmLab.Toml

section Paths

variable {rest : List Char}

/-- What may stand behind a key. -/
def EndsKey (rest : List Char) : Prop :=
  ∀ char ∈ rest.head?, isBareKeyChar char = false

theorem endsKey_cons {char : Char} (other : isBareKeyChar char = false) (rest : List Char) :
    EndsKey (char :: rest) := by
  intro head same
  obtain rfl := Option.some.inj same
  exact other

/-- A character at the start of a written key. -/
def OpensKey (char : Char) : Prop :=
  isBareKeyChar char = true ∨ char = '"'

theorem readKey_bare {key : String} (nonempty : key.toList ≠ [])
    (bare : ∀ char ∈ key.toList, isBareKeyChar char = true) (ends : EndsKey rest) :
    readKey (key.toList ++ rest) = some (key, rest) := by
  obtain ⟨taken, dropped⟩ := span_append bare ends
  have unquoted : ∀ char ∈ (key.toList ++ rest).head?, isBareKeyChar char = true := by
    intro char head
    rw [List.head?_append_of_ne_nil _ nonempty] at head
    exact bare char (List.mem_of_mem_head? head)
  unfold readKey
  split
  · rename_i same
    exact absurd (unquoted '"' (by rw [same]; rfl)) (by decide)
  · rename_i same
    exact absurd (unquoted '\'' (by rw [same]; rfl)) (by decide)
  · have visible : key.toList.isEmpty = false := by simpa using nonempty
    dsimp only
    rw [taken, dropped, visible, if_neg Bool.false_ne_true, String.ofList_toList]

theorem keyText_cases (key : String) :
    (keyText key = key ∧ key.toList ≠ [] ∧ ∀ char ∈ key.toList, isBareKeyChar char = true) ∨
      keyText key = quoted key := by
  unfold keyText
  split
  · rename_i bare
    simp only [Bool.and_eq_true, List.all_eq_true] at bare
    exact .inl ⟨rfl, by simpa using bare.1, bare.2⟩
  · exact .inr rfl

theorem readKey_keyText (key : String) (ends : EndsKey rest) :
    readKey ((keyText key).toList ++ rest) = some (key, rest) := by
  rcases keyText_cases key with ⟨same, nonempty, bare⟩ | same
  · rw [same]
    exact readKey_bare nonempty bare ends
  · rw [same, ← readLineString_quoted key rest, toList_quoted, List.cons_append, readKey]

theorem exists_keyText_cons (key : String) :
    ∃ first behind, (keyText key).toList = first :: behind ∧ OpensKey first := by
  rcases keyText_cases key with ⟨same, nonempty, bare⟩ | same
  · obtain ⟨first, behind, text⟩ := List.exists_cons_of_ne_nil nonempty
    exact ⟨first, behind, by rw [same, text], .inl (bare first (by simp [text]))⟩
  · exact ⟨'"', _, by rw [same]; exact toList_quoted key, .inr rfl⟩

theorem pathText_single (key : String) : pathText [key] = keyText key := by
  simp [pathText]

theorem pathText_cons (key next : String) (path : List String) :
    pathText (key :: next :: path) = keyText key ++ "." ++ pathText (next :: path) :=
  String.intercalate_cons_cons

theorem exists_pathText_cons {path : List String} (nonempty : path ≠ []) :
    ∃ first behind, (pathText path).toList = first :: behind ∧ OpensKey first := by
  match path with
  | [key] =>
    rw [pathText_single]
    exact exists_keyText_cons key
  | key :: next :: path =>
    obtain ⟨first, behind, text, opens⟩ := exists_keyText_cons key
    rw [pathText_cons, String.toList_append, String.toList_append, text]
    exact ⟨first, _, rfl, opens⟩

theorem OpensKey.ne {char other : Char} (opens : OpensKey char) (noKey : isBareKeyChar other = false)
    (noQuote : other ≠ '"') : char ≠ other := by
  rintro rfl
  rcases opens with bare | quote
  · rw [noKey] at bare
    cases bare
  · exact noQuote quote

theorem OpensKey.opens {char : Char} (opens : OpensKey char) : Opens char := by
  have others : [' ', '\t', '\n', '\r', '#', ']'].all
      (fun other => !isBareKeyChar other && other ≠ '"') = true := by decide
  intro member
  have other := List.all_eq_true.mp others char member
  simp only [Bool.and_eq_true, decide_eq_true_eq, Bool.not_eq_true'] at other
  exact opens.ne other.1 other.2 rfl

theorem OpensKey.skipBlanks {char : Char} (opens : OpensKey char) (rest : List Char) :
    skipBlanks (char :: rest) = char :: rest := by
  have noSpace := opens.ne (show isBareKeyChar ' ' = false by decide) (by decide)
  have noTab := opens.ne (show isBareKeyChar '\t' = false by decide) (by decide)
  exact List.dropWhile_cons_of_neg (by simp [isBlank, noSpace, noTab])

theorem skipBlanks_keyText (key : String) (rest : List Char) :
    skipBlanks ((keyText key).toList ++ rest) = (keyText key).toList ++ rest := by
  obtain ⟨first, behind, text, opens⟩ := exists_keyText_cons key
  rw [text]
  exact opens.skipBlanks _

theorem readPath_last {limit : Nat} {key : String} (ends : EndsKey rest)
    (undotted : (skipBlanks rest).head? ≠ some '.') :
    readPath (limit + 1) ((keyText key).toList ++ rest) = some ([key], skipBlanks rest) := by
  rw [readPath, skipBlanks_keyText, readKey_keyText key ends, Option.bind_eq_bind, Option.bind_some]
  dsimp only
  split
  · rename_i same
    exact absurd (by rw [same]; rfl) undotted
  · rfl

theorem readPath_dot {limit : Nat} {key : String} {path : List String} {last : List Char}
    (read : readPath limit rest = some (path, last)) :
    readPath (limit + 1) ((keyText key).toList ++ '.' :: rest) = some (key :: path, last) := by
  have ends : EndsKey ('.' :: rest) := endsKey_cons (by decide) rest
  have dot : skipBlanks ('.' :: rest) = '.' :: rest := rfl
  rw [readPath, skipBlanks_keyText, readKey_keyText key ends, Option.bind_eq_bind, Option.bind_some]
  simp only [dot, read]
  rfl

theorem readPath_pathText {limit : Nat} {path : List String} (nonempty : path ≠ [])
    (short : path.length ≤ limit) (ends : EndsKey rest)
    (undotted : (skipBlanks rest).head? ≠ some '.') :
    readPath limit ((pathText path).toList ++ rest) = some (path, skipBlanks rest) := by
  induction path generalizing limit with
  | nil => exact absurd rfl nonempty
  | cons key path ih =>
    obtain ⟨limit, rfl⟩ := Nat.exists_eq_add_one_of_ne_zero (Nat.ne_zero_of_lt short)
    cases path with
    | nil =>
      rw [pathText_single]
      exact readPath_last ends undotted
    | cons next path =>
      have read := ih (List.cons_ne_nil next path) (Nat.le_of_succ_le_succ short)
      rw [pathText_cons, String.toList_append, String.toList_append, List.append_assoc,
        List.append_assoc]
      exact readPath_dot read

end Paths

section Statements

/-- A path that fits into a heading or in front of an equals sign. -/
structure Fits (path : List String) : Prop where
  nonempty : path ≠ []
  short : path.length ≤ nestingLimit

/-- Headings, and pairs with a written value. -/
inductive Statement.Written : Statement → Prop where
  | table {path : List String} (fits : Fits path) : Written (.table path)
  | element {path : List String} (fits : Fits path) : Written (.element path)
  | pair {path : List String} {value : Value} (fits : Fits path)
      (written : value.Written nestingLimit) : Written (.pair path value)

variable {statement : Statement} {rest : List Char}

theorem readPath_bracket {path : List String} (fits : Fits path) :
    readPath nestingLimit ((pathText path).toList ++ ']' :: rest) = some (path, ']' :: rest) := by
  have ends : EndsKey (']' :: rest) := endsKey_cons (by decide) rest
  exact readPath_pathText fits.nonempty fits.short ends (by simp [skipBlanks, isBlank])

/-- The text of a statement without the blank line in front of a heading. -/
def Statement.body : Statement → List Char
  | .table path => '[' :: ((pathText path).toList ++ [']'])
  | .element path => '[' :: '[' :: ((pathText path).toList ++ [']', ']'])
  | .pair path value => (pathText path).toList ++ ' ' :: '=' :: ' ' :: value.text.toList

theorem Statement.Written.skipGap (written : statement.Written) (rest : List Char) :
    skipGap false (statement.text.toList ++ rest) = statement.body ++ '\n' :: rest := by
  cases written with
  | @table path fits =>
    have text : (Statement.table path).text.toList ++ rest =
        '\n' :: ((Statement.table path).body ++ '\n' :: rest) := by
      simp [Statement.text, Statement.body]
    rw [text]
    exact skipGap_opens opens_bracket _
  | @element path fits =>
    have text : (Statement.element path).text.toList ++ rest =
        '\n' :: ((Statement.element path).body ++ '\n' :: rest) := by
      simp [Statement.text, Statement.body]
    rw [text]
    exact skipGap_opens opens_bracket _
  | @pair path value fits written =>
    obtain ⟨first, behind, key, opens⟩ := exists_pathText_cons fits.nonempty
    have text : (Statement.pair path value).text.toList ++ rest =
        (Statement.pair path value).body ++ '\n' :: rest := by
      simp [Statement.text, Statement.body]
    rw [text, Statement.body, key]
    exact skipGap_opens opens.opens _

theorem Statement.Written.body_ne_nil (written : statement.Written) : statement.body ≠ [] := by
  cases written with
  | table fits => exact List.cons_ne_nil _ _
  | element fits => exact List.cons_ne_nil _ _
  | pair fits written => simp [Statement.body]

theorem readStatement_table {path : List String} (fits : Fits path) :
    readStatement ((Statement.table path).body ++ rest) = some (.table path, rest) := by
  obtain ⟨first, behind, key, opens⟩ := exists_pathText_cons fits.nonempty
  have single : first ≠ '[' := opens.ne (by decide) (by decide)
  have read := @readPath_bracket rest path fits
  have body : (Statement.table path).body ++ rest = '[' :: ((pathText path).toList ++ ']' :: rest) := by
    simp [Statement.body]
  rw [body]
  rw [key, List.cons_append] at read ⊢
  rw [readStatement, read, Option.bind_eq_bind, Option.bind_some]
  · rfl
  · rintro _ ⟨rfl, rfl⟩
    exact single rfl

theorem readStatement_element {path : List String} (fits : Fits path) :
    readStatement ((Statement.element path).body ++ rest) = some (.element path, rest) := by
  have read := @readPath_bracket (']' :: rest) path fits
  have body : (Statement.element path).body ++ rest =
      '[' :: '[' :: ((pathText path).toList ++ ']' :: ']' :: rest) := by
    simp [Statement.body]
  rw [body, readStatement, read, Option.bind_eq_bind, Option.bind_some]
  rfl

theorem skipBlanks_written {depth : Nat} {value : Value} (written : value.Written depth)
    (rest : List Char) :
    skipBlanks (' ' :: (value.text.toList ++ rest)) = value.text.toList ++ rest := by
  obtain ⟨first, behind, text, opens⟩ := written.opens
  simp only [Opens, List.mem_cons, List.not_mem_nil, or_false, not_or] at opens
  have visible : isBlank first = false := by simp [isBlank, opens.1, opens.2.1]
  rw [text, skipBlanks, List.dropWhile_cons_of_pos (by decide), List.cons_append,
    List.dropWhile_cons_of_neg (by simp [visible])]

theorem readStatement_pair {path : List String} {value : Value} (fits : Fits path)
    (written : value.Written nestingLimit) (ends : Ends rest) :
    readStatement ((Statement.pair path value).body ++ rest) = some (.pair path value, rest) := by
  obtain ⟨first, behind, key, opens⟩ := exists_pathText_cons fits.nonempty
  have noBracket : first ≠ '[' := opens.ne (by decide) (by decide)
  let behindKey := ' ' :: '=' :: ' ' :: (value.text.toList ++ rest)
  have equals : skipBlanks behindKey = '=' :: ' ' :: (value.text.toList ++ rest) := rfl
  have endsKey : EndsKey behindKey := endsKey_cons (by decide) _
  have read : readPath nestingLimit ((pathText path).toList ++ behindKey) =
      some (path, skipBlanks behindKey) :=
    readPath_pathText fits.nonempty fits.short endsKey (by simp [equals])
  have body : (Statement.pair path value).body ++ rest = (pathText path).toList ++ behindKey := by
    simp [Statement.body, behindKey]
  rw [body]
  rw [equals] at read
  rw [key, List.cons_append] at read ⊢
  rw [readStatement, read, Option.bind_eq_bind, Option.bind_some]
  · simp only [skipBlanks_written written rest, readValue_text written ends]
    rfl
  · intro _ same
    exact noBracket (List.cons.inj same).1
  · intro _ same
    exact noBracket (List.cons.inj same).1

theorem readStatement_body (written : statement.Written) (ends : Ends rest) :
    readStatement (statement.body ++ rest) = some (statement, rest) := by
  cases written with
  | table fits => exact readStatement_table fits
  | element fits => exact readStatement_element fits
  | pair fits written => exact readStatement_pair fits written ends

theorem readStatements_cons {fuel : Nat} {statements : List Statement} (written : statement.Written)
    (others : readStatements fuel rest = some statements) :
    readStatements (fuel + 1) (statement.text.toList ++ rest) = some (statement :: statements) := by
  have ends : Ends ('\n' :: rest) := ends_cons (by decide) rest
  have read := readStatement_body written ends
  obtain ⟨first, behind, body⟩ := List.exists_cons_of_ne_nil written.body_ne_nil
  have finished : finishLine? ('\n' :: rest) = some rest := rfl
  rw [readStatements, written.skipGap]
  rw [body, List.cons_append] at read ⊢
  dsimp only
  rw [read, Option.bind_eq_bind, Option.bind_some]
  simp only [finished, Option.bind_eq_bind, Option.bind_some, others]
  rfl

theorem render_cons (statement : Statement) (statements : List Statement) :
    (render (statement :: statements)).toList = statement.text.toList ++ (render statements).toList := by
  rw [render, List.map_cons, String.join_cons, String.toList_append, ← render]

theorem readStatements_render {statements : List Statement}
    (written : ∀ statement ∈ statements, statement.Written) {fuel : Nat}
    (enough : statements.length < fuel) :
    readStatements fuel (render statements).toList = some statements := by
  induction statements generalizing fuel with
  | nil =>
    obtain ⟨fuel, rfl⟩ := Nat.exists_eq_add_one_of_ne_zero (Nat.ne_zero_of_lt enough)
    rfl
  | cons statement statements ih =>
    obtain ⟨fuel, rfl⟩ := Nat.exists_eq_add_one_of_ne_zero (Nat.ne_zero_of_lt enough)
    obtain ⟨first, others⟩ := List.forall_mem_cons.mp written
    rw [render_cons]
    exact readStatements_cons first (ih others (Nat.lt_of_succ_lt_succ enough))

theorem length_le_render (statements : List Statement) :
    statements.length ≤ (render statements).toList.length := by
  induction statements with
  | nil => exact Nat.zero_le _
  | cons statement statements ih =>
    have nonempty : 0 < statement.text.toList.length := by
      cases statement <;> simp [Statement.text]
    rw [render_cons, List.length_append, List.length_cons]
    omega

theorem Statement.Written.head?_text (written : statement.Written) (rest : List Char) :
    (statement.text.toList ++ rest).head? ≠ some '\ufeff' := by
  cases written with
  | table fits => simp [Statement.text]
  | element fits => simp [Statement.text]
  | pair fits written =>
    obtain ⟨first, behind, key, opens⟩ := exists_pathText_cons fits.nonempty
    have other := opens.ne (show isBareKeyChar '\ufeff' = false by decide) (by decide)
    simp [Statement.text, key, other]

theorem dropByteOrderMark_render {statements : List Statement}
    (written : ∀ statement ∈ statements, statement.Written) :
    dropByteOrderMark (render statements).toList = (render statements).toList := by
  cases statements with
  | nil => rfl
  | cons statement statements =>
    have noMark := (written statement List.mem_cons_self).head?_text (render statements).toList
    rw [render_cons, dropByteOrderMark]
    intro _ same
    rw [same] at noMark
    exact noMark rfl

/-- A document is read back from its written form. -/
theorem read?_render {statements : List Statement}
    (written : ∀ statement ∈ statements, statement.Written) :
    read? (render statements) = some statements := by
  have enough : statements.length < (render statements).length + 1 := by
    have long := length_le_render statements
    rw [String.length_toList] at long
    omega
  rw [read?, dropByteOrderMark_render written]
  exact readStatements_render written enough

end Statements

end AsmLab.Toml
