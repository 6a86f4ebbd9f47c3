import Mathlib
import AsmLab.Toml.Document

/-! Every integer of a document fits into a signed 64-bit word, wherever it stands. The reader of numbers
lets no other through, and the tables that are built up hold nothing that was not read. -/
namespace AsmLab.Toml

def InRange (number : Int) : Prop :=
  -(Numeral.signedLimit : Int) ≤ number ∧ number < Numeral.signedLimit

/-- A value of which every integer is in range. -/
inductive Value.Ranged : Value → Prop where
  | string (text : String) : Ranged (.string text)
  | integer {number : Int} (inRange : InRange number) : Ranged (.integer number)
  | boolean (truth : Bool) : Ranged (.boolean truth)
  | float (spelling : String) : Ranged (.float spelling)
  | date (spelling : String) : Ranged (.date spelling)
  | array {items : List Value} (each : ∀ item ∈ items, Ranged item) : Ranged (.array items)
  | table {pairs : List (List String × Value)} (each : ∀ pair ∈ pairs, Ranged pair.2) :
      Ranged (.table pairs)

section Reading

variable {chars rest : List Char}

theorem inRange_of_bind {read? : Option Int} {number : Int}
    (checked : (read?.bind fun number =>
      if -(Numeral.signedLimit : Int) ≤ number ∧ number < Numeral.signedLimit then some number
      else none) = some number) : InRange number := by
  obtain ⟨found, -, checked⟩ := Option.bind_eq_some_iff.mp checked
  split at checked
  · rename_i inRange
    obtain rfl := Option.some.inj checked
    exact inRange
  · cases checked

theorem readInteger?_inRange {number : Int} (read : readInteger? chars = some number) :
    InRange number := by
  unfold readInteger? at read
  dsimp only at read
  split at read <;> exact inRange_of_bind read

theorem word?_ranged {value : Value} (read : word? chars = some value) : value.Ranged := by
  unfold word? at read
  split at read
  · obtain rfl := Option.some.inj read
    exact .boolean true
  · split at read
    · obtain rfl := Option.some.inj read
      exact .boolean false
    · split at read
      · rename_i number found
        obtain rfl := Option.some.inj read
        exact .integer (readInteger?_inRange found)
      · split at read
        · obtain rfl := Option.some.inj read
          exact .float _
        · cases read

theorem exists_of_map {Item Result : Type} {read : Option (Item × List Char)} {wrap : Item → Result}
    {result : Result} (found : (read.map fun (item, rest) => (wrap item, rest)) = some (result, rest)) :
    ∃ item, read = some (item, rest) ∧ wrap item = result := by
  obtain ⟨⟨item, behind⟩, there, same⟩ := Option.map_eq_some_iff.mp found
  obtain ⟨rfl, rfl⟩ := Prod.mk.inj same
  exact ⟨item, there, rfl⟩

theorem readSimple_ranged {value : Value} (read : readSimple chars = some (value, rest)) :
    value.Ranged := by
  unfold readSimple at read
  split at read
  · obtain ⟨text, -, rfl⟩ := exists_of_map read
    exact .string text
  · obtain ⟨text, -, rfl⟩ := exists_of_map read
    exact .string text
  · split at read
    · obtain ⟨rfl, -⟩ := Prod.mk.inj (Option.some.inj read)
      exact .date _
    · obtain ⟨word, found, same⟩ := Option.map_eq_some_iff.mp read
      obtain ⟨rfl, -⟩ := Prod.mk.inj same
      exact word?_ranged found

/-- A reader that gives values in range only. -/
def ReadsRanged (readItem : Reader Value) : Prop :=
  ∀ chars value rest, readItem chars = some (value, rest) → value.Ranged

theorem readItems_ranged {readItem : Reader Value} (reads : ReadsRanged readItem) {fuel : Nat}
    {items : List Value} (read : readItems readItem fuel chars = some (items, rest)) :
    ∀ item ∈ items, item.Ranged := by
  induction fuel generalizing chars rest items with
  | zero => cases read
  | succ fuel ih =>
    unfold readItems at read
    split at read
    · obtain ⟨rfl, -⟩ := Prod.mk.inj (Option.some.inj read)
      exact List.forall_mem_nil _
    · obtain ⟨⟨item, behind⟩, first, read⟩ := Option.bind_eq_some_iff.mp read
      have ranged := reads _ item behind first
      dsimp only at read
      split at read
      · obtain ⟨⟨others, last⟩, more, read⟩ := Option.bind_eq_some_iff.mp read
        obtain ⟨rfl, -⟩ := Prod.mk.inj (Option.some.inj read)
        exact List.forall_mem_cons.mpr ⟨ranged, ih more⟩
      · obtain ⟨rfl, -⟩ := Prod.mk.inj (Option.some.inj read)
        exact List.forall_mem_singleton.mpr ranged
      · cases read

theorem readPairs_ranged {readItem : Reader Value} (reads : ReadsRanged readItem) {fuel : Nat}
    {pairs : List (List String × Value)} (read : readPairs readItem fuel chars = some (pairs, rest)) :
    ∀ pair ∈ pairs, pair.2.Ranged := by
  induction fuel generalizing chars rest pairs with
  | zero => cases read
  | succ fuel ih =>
    unfold readPairs at read
    obtain ⟨⟨path, behind⟩, -, read⟩ := Option.bind_eq_some_iff.mp read
    dsimp only at read
    split at read
    · obtain ⟨⟨value, after⟩, first, read⟩ := Option.bind_eq_some_iff.mp read
      have ranged := reads _ value after first
      dsimp only at read
      split at read
      · obtain ⟨⟨others, last⟩, more, read⟩ := Option.bind_eq_some_iff.mp read
        obtain ⟨rfl, -⟩ := Prod.mk.inj (Option.some.inj read)
        exact List.forall_mem_cons.mpr ⟨ranged, ih more⟩
      · obtain ⟨rfl, -⟩ := Prod.mk.inj (Option.some.inj read)
        exact List.forall_mem_singleton.mpr ranged
      · cases read
    · cases read

theorem readValue_ranged (depth : Nat) : ReadsRanged (readValue depth) := by
  induction depth with
  | zero =>
    intro chars value rest read
    exact readSimple_ranged read
  | succ depth ih =>
    intro chars value rest read
    unfold readValue at read
    split at read
    · rename_i same
      obtain rfl := Nat.succ.inj same
      obtain ⟨items, found, rfl⟩ := exists_of_map read
      exact .array (readItems_ranged ih found)
    · rename_i same
      obtain rfl := Nat.succ.inj same
      split at read
      · obtain ⟨rfl, -⟩ := Prod.mk.inj (Option.some.inj read)
        exact .table (List.forall_mem_nil _)
      · obtain ⟨pairs, found, rfl⟩ := exists_of_map read
        exact .table (readPairs_ranged ih found)
    · exact readSimple_ranged read

/-- The value of a pair is in range. -/
def Statement.Ranged : Statement → Prop
  | .pair _ value => value.Ranged
  | .table _ | .element _ => True

theorem readStatement_ranged {statement : Statement}
    (read : readStatement chars = some (statement, rest)) : statement.Ranged := by
  unfold readStatement at read
  split at read
  · obtain ⟨⟨path, behind⟩, -, read⟩ := Option.bind_eq_some_iff.mp read
    dsimp only at read
    split at read
    · obtain ⟨rfl, -⟩ := Prod.mk.inj (Option.some.inj read)
      exact trivial
    · cases read
  · obtain ⟨⟨path, behind⟩, -, read⟩ := Option.bind_eq_some_iff.mp read
    dsimp only at read
    split at read
    · obtain ⟨rfl, -⟩ := Prod.mk.inj (Option.some.inj read)
      exact trivial
    · cases read
  · obtain ⟨⟨path, behind⟩, -, read⟩ := Option.bind_eq_some_iff.mp read
    dsimp only at read
    split at read
    · obtain ⟨⟨value, after⟩, found, read⟩ := Option.bind_eq_some_iff.mp read
      obtain ⟨rfl, -⟩ := Prod.mk.inj (Option.some.inj read)
      exact readValue_ranged _ _ _ _ found
    · cases read

theorem readStatements_ranged {fuel : Nat} {statements : List Statement}
    (read : readStatements fuel chars = some statements) :
    ∀ statement ∈ statements, statement.Ranged := by
  induction fuel generalizing chars statements with
  | zero => cases read
  | succ fuel ih =>
    unfold readStatements at read
    split at read
    · obtain rfl := Option.some.inj read
      exact List.forall_mem_nil _
    · obtain ⟨⟨statement, behind⟩, first, read⟩ := Option.bind_eq_some_iff.mp read
      obtain ⟨next, -, read⟩ := Option.bind_eq_some_iff.mp read
      obtain ⟨others, more, read⟩ := Option.bind_eq_some_iff.mp read
      obtain rfl := Option.some.inj read
      exact List.forall_mem_cons.mpr ⟨readStatement_ranged first, ih more⟩

end Reading

/-- A node of which every integer is in range. -/
inductive Node.Ranged : Node → Prop where
  | string (text : String) : Ranged (.string text)
  | integer {number : Int} (inRange : InRange number) : Ranged (.integer number)
  | boolean (truth : Bool) : Ranged (.boolean truth)
  | float (spelling : String) : Ranged (.float spelling)
  | array {items : List Node} (each : ∀ item ∈ items, Ranged item) : Ranged (.array items)
  | table {origin : Origin} {entries : Entries} (each : ∀ entry ∈ entries, Ranged entry.2) :
      Ranged (.table origin entries)
  | elements {tables : List Entries} (each : ∀ table ∈ tables, ∀ entry ∈ table, Ranged entry.2) :
      Ranged (.elements tables)

namespace Entries

def Ranged (entries : Entries) : Prop :=
  ∀ entry ∈ entries, entry.2.Ranged

variable {entries result : Entries} {key : String} {node : Node} {change : Entries → Option Entries}

theorem ranged_nil : Ranged [] :=
  List.forall_mem_nil _

theorem Ranged.append (ranged : Ranged entries) (added : node.Ranged) :
    Ranged (entries ++ [(key, node)]) := by
  intro entry member
  rcases List.mem_append.mp member with old | new
  · exact ranged entry old
  · obtain rfl := List.mem_singleton.mp new
    exact added

theorem Ranged.replace (ranged : Ranged entries) (put : node.Ranged) :
    Ranged (entries.replace key node) := by
  intro entry member
  obtain ⟨old, inside, rfl⟩ := List.mem_map.mp member
  split
  · exact put
  · exact ranged old inside

theorem Ranged.remove (ranged : Ranged entries) : Ranged (entries.remove key) :=
  fun entry member => ranged entry (List.mem_filter.mp member).1

theorem Ranged.lookup (ranged : Ranged entries) (found : entries.lookup key = some node) :
    node.Ranged := by
  obtain ⟨front, behind, rfl, -⟩ := List.lookup_eq_some_iff.mp found
  exact ranged (key, node) (by simp)

/-- A change that leaves integers in range. -/
def Keeps (change : Entries → Option Entries) : Prop :=
  ∀ entries result, Ranged entries → change entries = some result → Ranged result

theorem changeInside_ranged {other : Node} (keeps : Keeps change) (ranged : node.Ranged)
    (changed : changeInside change node = some other) : other.Ranged := by
  cases ranged with
  | table each =>
    obtain ⟨result, found, rfl⟩ := Option.map_eq_some_iff.mp changed
    exact .table (keeps _ result each found)
  | @elements tables each =>
    obtain ⟨last, isLast, changed⟩ := Option.bind_eq_some_iff.mp changed
    obtain ⟨result, found, changed⟩ := Option.bind_eq_some_iff.mp changed
    obtain rfl := Option.some.inj changed
    refine .elements fun table member => ?_
    rcases List.mem_append.mp member with old | new
    · exact each table (List.dropLast_subset _ old)
    · obtain rfl := List.mem_singleton.mp new
      exact keeps last table (each last (List.mem_of_getLast? isLast)) found
  | string | integer | boolean | float | array => cases changed

theorem insertPair_keeps (ranged : node.Ranged) (path : List String) :
    Keeps (insertPair node path) := by
  intro entries result held inserted
  induction path generalizing entries result with
  | nil => cases inserted
  | cons key path ih =>
    cases path with
    | nil =>
      unfold insertPair at inserted
      split at inserted
      · cases inserted
      · obtain rfl := Option.some.inj inserted
        exact held.append ranged
    | cons next path =>
      unfold insertPair at inserted
      split at inserted
      · obtain ⟨inner, found, inserted⟩ := Option.bind_eq_some_iff.mp inserted
        obtain rfl := Option.some.inj inserted
        exact held.append (.table (ih [] inner ranged_nil found))
      · rename_i there found
        dsimp only at inserted
        split at inserted
        · cases inserted
        · obtain ⟨other, changed, inserted⟩ := Option.bind_eq_some_iff.mp inserted
          obtain rfl := Option.some.inj inserted
          exact held.replace (changeInside_ranged ih (held.lookup found) changed)

theorem changeAt_keeps (keeps : Keeps change) (path : List String) : Keeps (changeAt change path) := by
  intro entries result held changed
  induction path generalizing entries result with
  | nil => exact keeps entries result held changed
  | cons key path ih =>
    unfold changeAt at changed
    split at changed
    · obtain ⟨inner, found, changed⟩ := Option.bind_eq_some_iff.mp changed
      obtain rfl := Option.some.inj changed
      exact held.append (.table (ih [] inner ranged_nil found))
    · cases changed
    · rename_i there _ found
      obtain ⟨other, inside, changed⟩ := Option.bind_eq_some_iff.mp changed
      obtain rfl := Option.some.inj changed
      exact held.replace (changeInside_ranged ih (held.lookup found) inside)

theorem openTable_keeps (key : String) : Keeps (openTable key) := by
  intro entries result held opened
  unfold openTable at opened
  split at opened
  · obtain rfl := Option.some.inj opened
    exact held.append (.table ranged_nil)
  · rename_i inner found
    obtain rfl := Option.some.inj opened
    cases held.lookup found with
    | table each => exact held.remove.append (.table each)
  · cases opened

theorem openElement_keeps (key : String) : Keeps (openElement key) := by
  intro entries result held opened
  unfold openElement at opened
  split at opened
  · obtain rfl := Option.some.inj opened
    exact held.append (.elements (List.forall_mem_singleton.mpr ranged_nil))
  · rename_i tables found
    obtain rfl := Option.some.inj opened
    cases held.lookup found with
    | elements each =>
      refine held.replace (.elements fun table member => ?_)
      rcases List.mem_append.mp member with old | new
      · exact each table old
      · obtain rfl := List.mem_singleton.mp new
        exact ranged_nil
  · cases opened

end Entries

mutual

theorem Value.Ranged.node? : ∀ {value : Value} {node : Node}, value.Ranged →
    value.node? = some node → node.Ranged
  | .string text, _, _, found => by
    obtain rfl := Option.some.inj found
    exact .string text
  | .integer number, _, ranged, found => by
    obtain rfl := Option.some.inj found
    cases ranged with
    | integer inRange => exact .integer inRange
  | .boolean truth, _, _, found => by
    obtain rfl := Option.some.inj found
    exact .boolean truth
  | .float spelling, _, _, found => by
    obtain rfl := Option.some.inj found
    exact .float spelling
  | .date spelling, _, _, found => by
    obtain rfl := Option.some.inj found
    exact .table (List.forall_mem_singleton.mpr (.string spelling))
  | .array items, _, ranged, found => by
    obtain ⟨nodes, read, rfl⟩ := Option.map_eq_some_iff.mp found
    cases ranged with
    | array each => exact .array (itemNodes?_ranged each read)
  | .table pairs, _, ranged, found => by
    obtain ⟨entries, read, rfl⟩ := Option.map_eq_some_iff.mp found
    cases ranged with
    | table each => exact .table (pairEntries?_ranged each Entries.ranged_nil read)

theorem itemNodes?_ranged : ∀ {items : List Value} {nodes : List Node},
    (∀ item ∈ items, item.Ranged) → itemNodes? items = some nodes → ∀ node ∈ nodes, node.Ranged
  | [], _, _, found => by
    obtain rfl := Option.some.inj found
    exact List.forall_mem_nil _
  | item :: rest, _, each, found => by
    obtain ⟨node, first, found⟩ := Option.bind_eq_some_iff.mp found
    obtain ⟨nodes, others, found⟩ := Option.bind_eq_some_iff.mp found
    obtain rfl := Option.some.inj found
    obtain ⟨ranged, later⟩ := List.forall_mem_cons.mp each
    exact List.forall_mem_cons.mpr ⟨ranged.node? first, itemNodes?_ranged later others⟩

theorem pairEntries?_ranged : ∀ {pairs : List (List String × Value)} {entries result : Entries},
    (∀ pair ∈ pairs, pair.2.Ranged) → entries.Ranged → pairEntries? pairs entries = some result →
      result.Ranged
  | [], _, _, _, held, found => by
    obtain rfl := Option.some.inj found
    exact held
  | (path, value) :: rest, entries, _, each, held, found => by
    obtain ⟨node, read, found⟩ := Option.bind_eq_some_iff.mp found
    obtain ⟨next, inserted, found⟩ := Option.bind_eq_some_iff.mp found
    obtain ⟨ranged, later⟩ := List.forall_mem_cons.mp each
    have kept := Entries.insertPair_keeps (ranged.node? read) path entries next held inserted
    exact pairEntries?_ranged later kept found

end

/-- A heading opens a table or an element at its place. -/
theorem heading_ranged {opens : String → Entries → Option Entries}
    (keeps : ∀ key, Entries.Keeps (opens key)) {root result : Entries} {path next : List String}
    (held : root.Ranged)
    (applied : (path.getLast?.bind fun key => (root.changeAt (opens key) path.dropLast).bind
      fun changed => some (changed, path)) = some (result, next)) : result.Ranged := by
  obtain ⟨key, -, applied⟩ := Option.bind_eq_some_iff.mp applied
  obtain ⟨changed, found, applied⟩ := Option.bind_eq_some_iff.mp applied
  obtain ⟨rfl, -⟩ := Prod.mk.inj (Option.some.inj applied)
  exact Entries.changeAt_keeps (keeps key) _ root changed held found

theorem applyStatement_ranged {root result : Entries} {place next : List String}
    {statement : Statement} (ranged : statement.Ranged) (held : root.Ranged)
    (applied : applyStatement root place statement = some (result, next)) : result.Ranged := by
  cases statement with
  | pair path value =>
    obtain ⟨node, read, applied⟩ := Option.bind_eq_some_iff.mp applied
    obtain ⟨changed, found, applied⟩ := Option.bind_eq_some_iff.mp applied
    obtain ⟨rfl, -⟩ := Prod.mk.inj (Option.some.inj applied)
    have keeps := Entries.insertPair_keeps (ranged.node? read) path
    exact Entries.changeAt_keeps keeps place root changed held found
  | table path => exact heading_ranged Entries.openTable_keeps held applied
  | element path => exact heading_ranged Entries.openElement_keeps held applied

theorem applyStatements_ranged {statements : List Statement} {root : Entries} {place : List String}
    {result : Entries × List String} (ranged : ∀ statement ∈ statements, statement.Ranged)
    (held : root.Ranged) (applied : applyStatements statements (root, place) = some result) :
    result.1.Ranged := by
  induction statements generalizing root place with
  | nil =>
    obtain rfl := Option.some.inj applied
    exact held
  | cons statement statements ih =>
    obtain ⟨⟨next, there⟩, first, applied⟩ := Option.bind_eq_some_iff.mp applied
    obtain ⟨now, later⟩ := List.forall_mem_cons.mp ranged
    exact ih later (applyStatement_ranged now held first) applied

/-- Every integer in a document that is read is in range. -/
theorem Entries.read?_ranged {text : String} {entries : Entries}
    (read : Entries.read? text = some entries) : entries.Ranged := by
  obtain ⟨statements, written, read⟩ := Option.bind_eq_some_iff.mp read
  obtain ⟨result, applied, rfl⟩ := Option.map_eq_some_iff.mp read
  exact applyStatements_ranged (readStatements_ranged written) Entries.ranged_nil applied

end AsmLab.Toml
