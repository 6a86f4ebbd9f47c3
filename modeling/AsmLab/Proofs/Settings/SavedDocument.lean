import AsmLab.Proofs.Settings.StoredSettings
import AsmLab.Proofs.Source.OperandText
import AsmLab.Proofs.Toml.GrowingDocuments
import AsmLab.Proofs.Toml.WrittenDocuments

/-! The document that settings are saved to. Its statements are all written in a form that is read back,
and they define five entries at its top, in tables whose keys are different. -/
namespace AsmLab

theorem Numeral.decimal_injective : Function.Injective decimal := by
  intro number other same
  rw [← value_decimal number, ← value_decimal other, String.ofList_injective same]

theorem Gpr.name_injective : Function.Injective name := by
  intro register other same
  have found := Register.ofName?_name register.full
  have same : register.full.name = other.full.name := same
  rw [same, Register.ofName?_name] at found
  exact (Register.low.inj (Option.some.inj found)).1.symm

namespace Settings

open Toml (Node Entries PairFormat)

section Formats

/-- Words are strings with hexadecimal digits. -/
def wordFormat : PairFormat (String × BitVec 64) where
  name := Prod.fst
  value item := hexValue item.2
  node item := .string (Numeral.markedHex item.2.toNat)
  valued _ := rfl

def numberFormat : PairFormat (String × Nat) where
  name := Prod.fst
  value item := .integer item.2
  node item := .integer item.2
  valued _ := rfl

def actionFormat : PairFormat LineAction where
  name _ := "type"
  value _ := .string "skip"
  node _ := .string "skip"
  valued _ := rfl

end Formats

section Listings

variable {registers : Gpr → Option (BitVec 64)} {lineActions : LineActions}

/-- The given registers by name. -/
def givenWords (registers : Gpr → Option (BitVec 64)) : List (String × BitVec 64) :=
  sortKeys (Gpr.all.filterMap fun register => (registers register).map fun word => (register.name, word))

/-- The actions by line number, which is a text. -/
def actionsByKey (lineActions : LineActions) : List (String × List LineAction) :=
  sortKeys (lineActions.toList.map fun (line, actions) => (Numeral.decimal line, actions))

theorem mem_sortKeys {Item : Type} {entry : String × Item} {entries : List (String × Item)} :
    entry ∈ sortKeys entries ↔ entry ∈ entries :=
  List.mem_mergeSort

theorem nodup_sortKeys {Item : Type} {entries : List (String × Item)}
    (distinct : (entries.map Prod.fst).Nodup) : ((sortKeys entries).map Prod.fst).Nodup :=
  ((List.mergeSort_perm entries _).map Prod.fst).nodup_iff.mpr distinct

theorem mem_givenWords {name : String} {word : BitVec 64} :
    (name, word) ∈ givenWords registers ↔
      ∃ register, registers register = some word ∧ register.name = name := by
  rw [givenWords, mem_sortKeys, List.mem_filterMap]
  constructor
  · rintro ⟨register, -, same⟩
    obtain ⟨other, found, same⟩ := Option.map_eq_some_iff.mp same
    obtain ⟨rfl, rfl⟩ := Prod.mk.inj same
    exact ⟨register, found, rfl⟩
  · rintro ⟨register, found, rfl⟩
    exact ⟨register, register.mem_all, by rw [found]; rfl⟩

theorem nodup_givenWords (registers : Gpr → Option (BitVec 64)) :
    ((givenWords registers).map Prod.fst).Nodup := by
  apply nodup_sortKeys
  rw [List.map_filterMap]
  refine List.Nodup.filterMap ?_ (by decide)
  intro register other name first second
  simp only [Option.mem_def, Option.map_map, Option.map_eq_some_iff, Function.comp_apply] at first second
  obtain ⟨-, -, rfl⟩ := first
  obtain ⟨-, -, same⟩ := second
  exact Gpr.name_injective same.symm

theorem mem_actionsByKey {text : String} {actions : List LineAction} :
    (text, actions) ∈ actionsByKey lineActions ↔
      ∃ line, lineActions[line]? = some actions ∧ Numeral.decimal line = text := by
  rw [actionsByKey, mem_sortKeys, List.mem_map]
  constructor
  · rintro ⟨⟨line, others⟩, member, same⟩
    obtain ⟨rfl, rfl⟩ := Prod.mk.inj same
    exact ⟨line, Std.ExtTreeMap.mem_toList_iff_getElem?_eq_some.mp member, rfl⟩
  · rintro ⟨line, found, rfl⟩
    exact ⟨(line, actions), Std.ExtTreeMap.mem_toList_iff_getElem?_eq_some.mpr found, rfl⟩

theorem nodup_actionsByKey (lineActions : LineActions) :
    ((actionsByKey lineActions).map Prod.fst).Nodup := by
  apply nodup_sortKeys
  rw [List.map_map, List.Nodup, List.pairwise_map]
  refine (Std.ExtTreeMap.distinct_keys_toList (t := lineActions)).imp ?_
  rintro ⟨line, _⟩ ⟨other, _⟩ apart same
  exact apart (Nat.compare_eq_eq.mpr (Numeral.decimal_injective same))

end Listings

section Statements

/-- The statements for the actions add one entry, too. -/
theorem lineActionStatements_eq (lineActions : LineActions) :
    lineActionStatements lineActions =
      if actionsByKey lineActions = [] then actionFormat.tableStatements "line_actions" []
      else actionFormat.groupStatements "line_actions" (actionsByKey lineActions) := by
  have same : actionStatements = fun line => actionFormat.elementStatements ["line_actions", line] := by
    funext line action
    cases action
    rfl
  simp only [lineActionStatements, same, List.isEmpty_iff]
  rfl

variable (settings : Settings)

def breakpointStatement : Toml.Statement :=
  .pair ["breakpoints"] (.array (settings.breakpoints.map fun line : Nat => .integer line))

/-- The statements behind the breakpoints, in blocks for one entry each. -/
def blocks : List (List Toml.Statement) :=
  [wordFormat.tableStatements "stack" [("base_address", settings.stackBase)],
    wordFormat.tableStatements "registers" (givenWords settings.registers),
    lineActionStatements settings.lineActions,
    numberFormat.tableStatements "run"
      [("steps_per_run", settings.stepsPerRun), ("max_runs", settings.maxRuns)]]

theorem statements_eq :
    settings.statements = settings.breakpointStatement :: settings.blocks.flatten := by
  have registers : registerStatements settings.registers =
      wordFormat.tableStatements "registers" (givenWords settings.registers) := rfl
  simp only [statements, blocks, registers, List.flatten_cons, List.flatten_nil, List.append_assoc]
  rfl

end Statements

section Writing

open Toml (Fits nestingLimit)

variable {settings : Settings} {Item : Type} {format : PairFormat Item} {key : String}

theorem fits_single (key : String) : Fits [key] :=
  ⟨List.cons_ne_nil _ _, by simp [nestingLimit]⟩

theorem fits_pair (key line : String) : Fits [key, line] :=
  ⟨List.cons_ne_nil _ _, by simp [nestingLimit]⟩

theorem tableStatements_written {items : List Item}
    (each : ∀ item ∈ items, (format.value item).Written nestingLimit) :
    ∀ statement ∈ format.tableStatements key items, statement.Written := by
  refine List.forall_mem_cons.mpr ⟨.table (fits_single key), fun statement member => ?_⟩
  obtain ⟨item, inside, rfl⟩ := List.mem_map.mp member
  exact .pair (fits_single _) (each item inside)

theorem groupStatements_written {groups : List (String × List Item)}
    (each : ∀ item, (format.value item).Written nestingLimit) :
    ∀ statement ∈ format.groupStatements key groups, statement.Written := by
  intro statement member
  obtain ⟨⟨line, items⟩, -, member⟩ := List.mem_flatMap.mp member
  obtain ⟨item, -, member⟩ := List.mem_flatMap.mp member
  have written : ∀ statement ∈ format.elementStatements [key, line] item, statement.Written :=
    List.forall_mem_cons.mpr ⟨.element (fits_pair key line),
      List.forall_mem_singleton.mpr (.pair (fits_single _) (each item))⟩
  exact written statement member

theorem lineActionStatements_written (lineActions : LineActions) :
    ∀ statement ∈ lineActionStatements lineActions, statement.Written := by
  rw [lineActionStatements_eq]
  split
  · exact tableStatements_written (List.forall_mem_nil _)
  · exact groupStatements_written fun _ => .string "skip"

theorem Storable.statements_written (storable : settings.Storable) :
    ∀ statement ∈ settings.statements, statement.Written := by
  have breakpoints : settings.breakpointStatement.Written := by
    refine .pair (fits_single _) (.array fun item member => ?_)
    obtain ⟨line, inside, rfl⟩ := List.mem_map.mp member
    exact .natural (storable.breakpoints line inside)
  have bounds : ∀ item ∈ [("steps_per_run", settings.stepsPerRun), ("max_runs", settings.maxRuns)],
      (numberFormat.value item).Written nestingLimit :=
    List.forall_mem_cons.mpr ⟨.natural storable.stepsPerRun,
      List.forall_mem_singleton.mpr (.natural storable.maxRuns)⟩
  have words (items : List (String × BitVec 64)) :
      ∀ item ∈ items, (wordFormat.value item).Written nestingLimit := fun _ _ => .string _
  rw [statements_eq, List.forall_mem_cons]
  refine ⟨breakpoints, fun statement member => ?_⟩
  simp only [blocks, List.flatten_cons, List.flatten_nil, List.mem_append, List.not_mem_nil,
    or_false] at member
  rcases member with stack | registers | lineActions | run
  · exact tableStatements_written (words _) statement stack
  · exact tableStatements_written (words _) statement registers
  · exact lineActionStatements_written _ statement lineActions
  · exact tableStatements_written bounds statement run

end Writing

section Document

variable (settings : Settings)

/-- The table of the actions, which has a heading only if there are none. -/
def actionsTable (lineActions : LineActions) : Node :=
  .table (if actionsByKey lineActions = [] then .heading else .implied)
    (actionFormat.groupEntries (actionsByKey lineActions))

/-- The entries at the top of the saved document. -/
def document : Entries :=
  [("breakpoints", .array (settings.breakpoints.map fun line : Nat => .integer line)),
    ("stack", .table .heading [wordFormat.entry ("base_address", settings.stackBase)]),
    ("registers", .table .heading ((givenWords settings.registers).map wordFormat.entry)),
    ("line_actions", actionsTable settings.lineActions),
    ("run", .table .heading [numberFormat.entry ("steps_per_run", settings.stepsPerRun),
      numberFormat.entry ("max_runs", settings.maxRuns)])]

theorem itemNodes?_naturals (numbers : List Nat) :
    Toml.itemNodes? (numbers.map fun number : Nat => .integer number) =
      some (numbers.map fun number : Nat => .integer number) := by
  induction numbers with
  | nil => rfl
  | cons number numbers ih =>
    rw [List.map_cons, Toml.itemNodes?, ih]
    rfl

variable {settings}

theorem Listed.adds {lineActions : LineActions} (listed : Listed lineActions) :
    Toml.Adds (lineActionStatements lineActions) ("line_actions", actionsTable lineActions) := by
  rw [lineActionStatements_eq, actionsTable]
  split
  · rename_i none
    rw [none]
    exact Toml.adds_table actionFormat "line_actions" List.nodup_nil
  · rename_i some
    refine Toml.adds_groups actionFormat "line_actions" some ?_ (nodup_actionsByKey lineActions)
    rintro ⟨text, actions⟩ member
    obtain ⟨line, found, -⟩ := mem_actionsByKey.mp member
    exact (listed line actions found).2

theorem Storable.document_eq (storable : settings.Storable) :
    Entries.ofStatements? settings.statements = some settings.document := by
  have breakpoints : Toml.applyStatement [] [] settings.breakpointStatement =
      some (settings.document.take 1, []) := by
    simp [Toml.applyStatement, breakpointStatement, Toml.Value.node?, itemNodes?_naturals,
      Entries.changeAt, Entries.insertPair, document]
  have adds : List.Forall₂ Toml.Adds settings.blocks settings.document.tail := by
    refine .cons ?stack (.cons ?registers (.cons storable.lineActions.adds (.cons ?run .nil)))
    case stack => exact Toml.adds_table wordFormat "stack" (by simp)
    case registers => exact Toml.adds_table wordFormat "registers" (nodup_givenWords settings.registers)
    case run => exact Toml.adds_table numberFormat "run" (by simp [numberFormat])
  have distinct : ((settings.document.take 1).map Prod.fst ++
      settings.document.tail.map Prod.fst).Nodup := by
    simp [document]
  obtain ⟨last, applied⟩ := Toml.applyStatements_blocks adds distinct []
  rw [Entries.ofStatements?, statements_eq, Toml.applyStatements_cons breakpoints, applied]
  rfl

/-- The saved text is read as the document of the settings. -/
theorem Storable.read?_save (storable : settings.Storable) :
    Entries.read? settings.save = some settings.document := by
  rw [Entries.read?, save, Toml.read?_render storable.statements_written, Option.bind_eq_bind,
    Option.bind_some, storable.document_eq]

end Document

end Settings

end AsmLab
