import Mathlib
import AsmLab.Toml.Document

/-! A document that grows at its end. A heading opens a table behind all others, pairs go into the table
that was opened last, and the elements of an array of tables come one after the other. -/
namespace AsmLab.Toml

namespace Entries

variable {front inner result : Entries} {key name : String} {node : Node} {path : List String}
  {change : Entries → Option Entries}

theorem lookup_eq_none_iff : front.lookup key = none ↔ key ∉ front.map Prod.fst := by
  rw [List.lookup_eq_none_iff, List.mem_map]
  constructor
  · rintro other ⟨entry, member, rfl⟩
    simpa using other entry member
  · intro absent entry member
    rw [bne_iff_ne]
    rintro rfl
    exact absent ⟨entry, member, rfl⟩

/-- What comes behind a list of different keys is not yet among those in front. -/
theorem lookup_of_nodup {keys : List String} (distinct : (front.map Prod.fst ++ key :: keys).Nodup) :
    front.lookup key = none := by
  rw [lookup_eq_none_iff]
  intro member
  exact (List.nodup_append.mp distinct).2.2 _ member _ List.mem_cons_self rfl

theorem lookup_last (fresh : front.lookup key = none) :
    (front ++ [(key, node)]).lookup key = some node := by
  rw [List.lookup_append, fresh]
  simp

theorem replace_last (fresh : front.lookup key = none) (other : Node) :
    replace (front ++ [(key, node)]) key other = front ++ [(key, other)] := by
  have kept : front.map (fun entry => if entry.1 = key then (key, other) else entry) = front := by
    have same : ∀ entry ∈ front, (if entry.1 = key then (key, other) else entry) = id entry := by
      intro entry member
      rw [if_neg]
      · rfl
      · rintro rfl
        exact lookup_eq_none_iff.mp fresh (List.mem_map_of_mem member)
    rw [List.map_congr_left same, List.map_id]
  rw [replace, List.map_append, kept]
  simp

theorem insertPair_fresh (fresh : inner.lookup name = none) :
    insertPair node [name] inner = some (inner ++ [(name, node)]) := by
  rw [insertPair, fresh]
  rfl

theorem openTable_fresh (fresh : front.lookup key = none) :
    openTable key front = some (front ++ [(key, Node.table .heading [])]) := by
  rw [openTable, fresh]

theorem openElement_fresh (fresh : front.lookup key = none) :
    openElement key front = some (front ++ [(key, Node.elements [[]])]) := by
  rw [openElement, fresh]

theorem openElement_last (fresh : front.lookup key = none) (tables : List Entries) :
    openElement key (front ++ [(key, Node.elements tables)]) =
      some (front ++ [(key, Node.elements (tables ++ [[]]))]) := by
  rw [openElement, lookup_last fresh]
  dsimp only
  rw [replace_last fresh]

theorem changeAt_fresh (fresh : front.lookup key = none)
    (changed : changeAt change path [] = some result) :
    changeAt change (key :: path) front = some (front ++ [(key, Node.table .implied result)]) := by
  rw [changeAt, fresh, changed]
  rfl

/-- A change inside the last entry, which was not written between braces. -/
theorem changeAt_inside {other : Node} (fresh : front.lookup key = none)
    (unbraced : ∀ entries, node ≠ .table .inline entries)
    (changed : changeInside (changeAt change path) node = some other) :
    changeAt change (key :: path) (front ++ [(key, node)]) = some (front ++ [(key, other)]) := by
  rw [changeAt, lookup_last fresh]
  split
  · rename_i none
    cases none
  · rename_i same
    exact absurd (Option.some.inj same) (unbraced _)
  · rename_i same
    obtain rfl := Option.some.inj same
    rw [changed, Option.bind_eq_bind, Option.bind_some, replace_last fresh]
    rfl

theorem changeAt_last {origin : Origin} (fresh : front.lookup key = none) (unbraced : origin ≠ .inline)
    (changed : changeAt change path inner = some result) :
    changeAt change (key :: path) (front ++ [(key, Node.table origin inner)]) =
      some (front ++ [(key, Node.table origin result)]) := by
  apply changeAt_inside fresh
  · rintro _ same
    exact unbraced (Node.table.inj same).1
  · rw [changeInside, changed]
    rfl

theorem changeAt_last_element {tables : List Entries} (fresh : front.lookup key = none)
    (changed : changeAt change path inner = some result) :
    changeAt change (key :: path) (front ++ [(key, Node.elements (tables ++ [inner]))]) =
      some (front ++ [(key, Node.elements (tables ++ [result]))]) := by
  apply changeAt_inside fresh
  · intro _ same
    cases same
  · simp [changeInside, changed]

/-- A document with a table at its end that is there as soon as it has entries. -/
def withImplied (front : Entries) (key : String) (inner : Entries) : Entries :=
  if inner = [] then front else front ++ [(key, Node.table .implied inner)]

theorem changeAt_withImplied (fresh : front.lookup key = none)
    (changed : changeAt change path inner = some result) (nonempty : result ≠ []) :
    changeAt change (key :: path) (front.withImplied key inner) =
      some (front.withImplied key result) := by
  rw [withImplied, withImplied, if_neg nonempty]
  split
  · rename_i empty
    rw [empty] at changed
    exact changeAt_fresh fresh changed
  · exact changeAt_last fresh (by decide) changed

end Entries

/-- The pair that each item is written as, and the node that its value is read as. -/
structure PairFormat (Item : Type) where
  name : Item → String
  value : Item → Value
  node : Item → Node
  valued : ∀ item, (value item).node? = some (node item)

namespace PairFormat

variable {Item : Type} (format : PairFormat Item)

def statement (item : Item) : Statement :=
  .pair [format.name item] (format.value item)

def entry (item : Item) : String × Node :=
  (format.name item, format.node item)

def tableStatements (key : String) (items : List Item) : List Statement :=
  .table [key] :: items.map format.statement

/-- The heading of an element and the one pair in it. -/
def elementStatements (path : List String) (item : Item) : List Statement :=
  [.element path, format.statement item]

/-- Tables with one entry each. -/
def tables (items : List Item) : List Entries :=
  items.map fun item => [format.entry item]

/-- Elements of arrays of tables, which are keyed in the table under `key`. -/
def groupStatements (key : String) (groups : List (String × List Item)) : List Statement :=
  groups.flatMap fun group => group.2.flatMap (format.elementStatements [key, group.1])

def groupEntries (groups : List (String × List Item)) : Entries :=
  groups.map fun group => (group.1, Node.elements (format.tables group.2))

end PairFormat

section Statements

variable {front inner : Entries} {place : List String} {key line : String}

theorem applyStatements_append (statements others : List Statement) (state : Entries × List String) :
    applyStatements (statements ++ others) state =
      (applyStatements statements state).bind (applyStatements others) := by
  induction statements generalizing state with
  | nil => rfl
  | cons statement statements ih =>
    obtain ⟨root, place⟩ := state
    simp only [List.cons_append, applyStatements]
    cases applyStatement root place statement with
    | none => rfl
    | some next => exact ih next

theorem applyStatements_cons {statement : Statement} {next : Entries × List String}
    (applied : applyStatement front place statement = some next) (statements : List Statement) :
    applyStatements (statement :: statements) (front, place) = applyStatements statements next := by
  rw [applyStatements, applied]
  rfl

theorem applyStatement_table (fresh : front.lookup key = none) (place : List String) :
    applyStatement front place (.table [key]) =
      some (front ++ [(key, Node.table .heading [])], [key]) := by
  simp [applyStatement, Entries.changeAt, Entries.openTable_fresh fresh]

variable {Item : Type} (format : PairFormat Item)

theorem applyStatement_pair {item : Item} {root result : Entries}
    (changed : root.changeAt (Entries.insertPair (format.node item) [format.name item]) place =
      some result) :
    applyStatement root place (format.statement item) = some (result, place) := by
  simp [applyStatement, PairFormat.statement, format.valued, changed]

theorem changeAt_insertPair (item : Item) (absent : inner.lookup (format.name item) = none) :
    inner.changeAt (Entries.insertPair (format.node item) [format.name item]) [] =
      some (inner ++ [format.entry item]) :=
  Entries.insertPair_fresh absent

/-- Pairs with different names go into the table that was opened last. -/
theorem applyStatements_pairs (fresh : front.lookup key = none) {items : List Item}
    (distinct : (inner.map Prod.fst ++ items.map format.name).Nodup) :
    applyStatements (items.map format.statement) (front ++ [(key, Node.table .heading inner)], [key]) =
      some (front ++ [(key, Node.table .heading (inner ++ items.map format.entry))], [key]) := by
  induction items generalizing inner with
  | nil => simp [applyStatements]
  | cons item items ih =>
    have absent : inner.lookup (format.name item) = none := Entries.lookup_of_nodup distinct
    have changed : Entries.changeAt (Entries.insertPair (format.node item) [format.name item]) [key]
        (front ++ [(key, Node.table .heading inner)]) = some _ :=
      Entries.changeAt_last fresh (by decide) (changeAt_insertPair format item absent)
    have apart : ((inner ++ [format.entry item]).map Prod.fst ++ items.map format.name).Nodup := by
      simpa [PairFormat.entry] using distinct
    rw [List.map_cons, applyStatements_cons (applyStatement_pair format changed), ih apart]
    simp

/-- One more element, in a table that may have to be made first. -/
theorem applyStatements_element {opened : Entries} {tables : List Entries} (item : Item)
    (fresh : front.lookup key = none) (newLine : inner.lookup line = none)
    (opens : opened.openElement line = some (inner ++ [(line, Node.elements (tables ++ [[]]))]))
    (place : List String) :
    applyStatements (format.elementStatements [key, line] item)
        (front.withImplied key opened, place) =
      some (front.withImplied key (inner ++ [(line, Node.elements (tables ++ [[format.entry item]]))]),
        [key, line]) := by
  have heading : applyStatement (front.withImplied key opened) place (.element [key, line]) =
      some (front.withImplied key (inner ++ [(line, Node.elements (tables ++ [[]]))]), [key, line]) := by
    have changed : opened.changeAt (Entries.openElement line) [] = some _ := opens
    simp [applyStatement, Entries.changeAt_withImplied fresh changed]
  have inserted : Entries.changeAt (Entries.insertPair (format.node item) [format.name item]) [line]
      (inner ++ [(line, Node.elements (tables ++ [[]]))]) = some _ :=
    Entries.changeAt_last_element newLine (changeAt_insertPair format item rfl)
  have pair := applyStatement_pair format (Entries.changeAt_withImplied fresh inserted (by simp))
  rw [PairFormat.elementStatements, applyStatements_cons heading, applyStatements_cons pair]
  rfl

/-- Further elements of an array of tables. -/
theorem applyStatements_further (fresh : front.lookup key = none) (newLine : inner.lookup line = none)
    (items : List Item) (tables : List Entries) :
    applyStatements (items.flatMap (format.elementStatements [key, line]))
        (front.withImplied key (inner ++ [(line, Node.elements tables)]), [key, line]) =
      some (front.withImplied key (inner ++ [(line, Node.elements (tables ++ format.tables items))]),
        [key, line]) := by
  induction items generalizing tables with
  | nil => simp [applyStatements, PairFormat.tables]
  | cons item items ih =>
    have one := applyStatements_element format item fresh newLine
      (Entries.openElement_last newLine tables) [key, line]
    rw [List.flatMap_cons, applyStatements_append, one, Option.bind_some, ih]
    simp [PairFormat.tables]

/-- A new array of tables with its elements. -/
theorem applyStatements_elements (fresh : front.lookup key = none) (newLine : inner.lookup line = none)
    {items : List Item} (nonempty : items ≠ []) (place : List String) :
    applyStatements (items.flatMap (format.elementStatements [key, line]))
        (front.withImplied key inner, place) =
      some (front.withImplied key (inner ++ [(line, Node.elements (format.tables items))]),
        [key, line]) := by
  obtain ⟨item, items, rfl⟩ := List.exists_cons_of_ne_nil nonempty
  have opens : inner.openElement line = some (inner ++ [(line, Node.elements ([] ++ [[]]))]) :=
    Entries.openElement_fresh newLine
  have one := applyStatements_element format item fresh newLine opens place
  rw [List.flatMap_cons, applyStatements_append, one, Option.bind_some]
  exact applyStatements_further format fresh newLine items [[format.entry item]]

/-- Arrays of tables under different keys, one behind the other. -/
theorem applyStatements_groups (fresh : front.lookup key = none) {groups : List (String × List Item)}
    (nonempty : ∀ group ∈ groups, group.2 ≠ [])
    (distinct : (inner.map Prod.fst ++ groups.map Prod.fst).Nodup) (place : List String) :
    ∃ last, applyStatements (format.groupStatements key groups) (front.withImplied key inner, place) =
      some (front.withImplied key (inner ++ format.groupEntries groups), last) := by
  induction groups generalizing inner place with
  | nil => exact ⟨place, by simp [applyStatements, PairFormat.groupStatements, PairFormat.groupEntries]⟩
  | cons group groups ih =>
    obtain ⟨line, items⟩ := group
    obtain ⟨first, others⟩ := List.forall_mem_cons.mp nonempty
    have newLine : inner.lookup line = none := Entries.lookup_of_nodup distinct
    have one := applyStatements_elements format fresh newLine first place
    let grown : Entries := inner ++ [(line, Node.elements (format.tables items))]
    have apart : (grown.map Prod.fst ++ groups.map Prod.fst).Nodup := by
      simpa [grown] using distinct
    obtain ⟨last, more⟩ := ih others apart [key, line]
    have split : format.groupStatements key ((line, items) :: groups) =
        items.flatMap (format.elementStatements [key, line]) ++ format.groupStatements key groups :=
      List.flatMap_cons
    refine ⟨last, ?_⟩
    rw [split, applyStatements_append, one, Option.bind_some, more]
    simp [grown, PairFormat.groupEntries]

/-- Statements that add one entry to every document in which its key is new. -/
def Adds (statements : List Statement) (entry : String × Node) : Prop :=
  ∀ (front : Entries) (place : List String), front.lookup entry.1 = none →
    ∃ last, applyStatements statements (front, place) = some (front ++ [entry], last)

theorem adds_table (key : String) {items : List Item} (distinct : (items.map format.name).Nodup) :
    Adds (format.tableStatements key items) (key, Node.table .heading (items.map format.entry)) := by
  intro front place fresh
  refine ⟨[key], ?_⟩
  rw [PairFormat.tableStatements, applyStatements_cons (applyStatement_table fresh place)]
  exact applyStatements_pairs format fresh (by simpa using distinct)

theorem adds_groups (key : String) {groups : List (String × List Item)} (listed : groups ≠ [])
    (nonempty : ∀ group ∈ groups, group.2 ≠ []) (distinct : (groups.map Prod.fst).Nodup) :
    Adds (format.groupStatements key groups)
      (key, Node.table .implied (format.groupEntries groups)) := by
  intro front place fresh
  have visible : format.groupEntries groups ≠ [] := by simpa [PairFormat.groupEntries] using listed
  have apart : (List.map Prod.fst ([] : Entries) ++ groups.map Prod.fst).Nodup := by
    simpa using distinct
  obtain ⟨last, applied⟩ := applyStatements_groups format fresh nonempty apart place
  exact ⟨last, by simpa [Entries.withImplied, visible] using applied⟩

/-- Blocks of statements that add an entry each add all of them. -/
theorem applyStatements_blocks {blocks : List (List Statement)} {entries : Entries}
    (adds : List.Forall₂ Adds blocks entries)
    (distinct : (front.map Prod.fst ++ entries.map Prod.fst).Nodup) (place : List String) :
    ∃ last, applyStatements blocks.flatten (front, place) = some (front ++ entries, last) := by
  induction adds generalizing front place with
  | nil => exact ⟨place, by simp [applyStatements]⟩
  | @cons block entry blocks entries first others ih =>
    have fresh : front.lookup entry.1 = none := Entries.lookup_of_nodup distinct
    obtain ⟨next, applied⟩ := first front place fresh
    have apart : ((front ++ [entry]).map Prod.fst ++ entries.map Prod.fst).Nodup := by
      simpa using distinct
    obtain ⟨last, more⟩ := ih apart next
    refine ⟨last, ?_⟩
    rw [List.flatten_cons, applyStatements_append, applied, Option.bind_some, more]
    simp

end Statements

end AsmLab.Toml
