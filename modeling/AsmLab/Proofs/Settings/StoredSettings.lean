import AsmLab.Proofs.Settings.HexWords
import AsmLab.Proofs.Source.Acceptance
import AsmLab.Proofs.Toml.IntegerRange

/-! Settings that can be written to a document. What is loaded is so: its numbers were integers of a
document, its lines were numerals for words, and no line is listed without an action. -/
namespace AsmLab.Settings

open Toml (Node Entries)
open Source (exists_of_bind_ok)

section Runs

variable {Item Result State Cause : Type}

/-- What every step keeps holds in the end. -/
theorem foldlM_keeps (Holds : State → Prop) {step : State → Item → Except Cause State}
    {items : List Item} {state result : State}
    (keeps : ∀ item ∈ items, ∀ state next, Holds state → step state item = .ok next → Holds next)
    (start : Holds state) (run : items.foldlM step state = .ok result) : Holds result := by
  induction items generalizing state with
  | nil =>
    obtain rfl := Except.ok.inj run
    exact start
  | cons item items ih =>
    obtain ⟨first, others⟩ := List.forall_mem_cons.mp keeps
    rw [List.foldlM_cons] at run
    obtain ⟨next, stepped, run⟩ := exists_of_bind_ok run
    exact ih others (first state next start stepped) run

theorem exists_of_mem_mapM {read : Item → Except Cause Result} {items : List Item}
    {results : List Result} (all : items.mapM read = .ok results) :
    ∀ result ∈ results, ∃ item ∈ items, read item = .ok result := by
  induction items generalizing results with
  | nil =>
    obtain rfl := Except.ok.inj all
    exact List.forall_mem_nil _
  | cons item items ih =>
    rw [List.mapM_cons] at all
    obtain ⟨first, read, all⟩ := exists_of_bind_ok all
    obtain ⟨others, more, all⟩ := exists_of_bind_ok all
    obtain rfl := Except.ok.inj all
    refine List.forall_mem_cons.mpr ⟨⟨item, List.mem_cons_self, read⟩, fun result member => ?_⟩
    obtain ⟨source, inside, read⟩ := ih more result member
    exact ⟨source, List.mem_cons_of_mem item inside, read⟩

end Runs

/-- Lines that are words, each with an action. -/
def Listed (lineActions : LineActions) : Prop :=
  ∀ line actions, lineActions[line]? = some actions → line < Numeral.wordLimit ∧ actions ≠ []

/-- Settings of which every number can be written. -/
structure Storable (settings : Settings) : Prop where
  breakpoints : ∀ line ∈ settings.breakpoints, line < Numeral.signedLimit
  lineActions : Listed settings.lineActions
  stepsPerRun : settings.stepsPerRun < Numeral.signedLimit
  maxRuns : settings.maxRuns < Numeral.signedLimit

variable {settings next : Settings} {node : Node}

theorem readNatural_lt {number : Nat} (ranged : node.Ranged) (read : readNatural node = .ok number) :
    number < Numeral.signedLimit := by
  unfold readNatural at read
  split at read
  · obtain rfl := Except.ok.inj read
    cases ranged with
    | integer inRange => exact Int.ofNat_lt.mp inRange.2
  · cases read

theorem readItems_ranged {items : List Node} (ranged : node.Ranged) (read : readItems node = .ok items) :
    ∀ item ∈ items, item.Ranged := by
  cases ranged with
  | array each =>
    obtain rfl := Except.ok.inj read
    exact each
  | elements each =>
    obtain rfl := Except.ok.inj read
    intro item member
    obtain ⟨table, inside, rfl⟩ := List.mem_map.mp member
    exact .table (each table inside)
  | string | integer | boolean | float | table => cases read

theorem readRecord_ranged {fields : List String} {entries : Entries} (ranged : node.Ranged)
    (read : readRecord fields node = .ok entries) : entries.Ranged := by
  unfold readRecord at read
  split at read
  · obtain rfl := Except.ok.inj read
    cases ranged with
    | table each => exact each
  · obtain ⟨items, found, read⟩ := exists_of_bind_ok read
    obtain rfl := Except.ok.inj read
    intro entry member
    exact readItems_ranged ranged found _ (List.of_mem_zip member).2

theorem readLineNumber_lt {text : String} {line : Nat} (read : readLineNumber text = .ok line) :
    line < Numeral.wordLimit := by
  unfold readLineNumber at read
  split at read
  · rename_i found
    obtain rfl := Except.ok.inj read
    exact ((Numeral.readBelow_eq_ok_iff (by decide) (by decide) (by decide)).mp found).2
  · cases read

theorem exists_of_orEntry {Result : Type} {read : Except Problem Result} {result : Result}
    (entered : orEntry read = .ok result) : read = .ok result := by
  cases read with
  | ok found => exact congrArg Except.ok (Except.ok.inj entered)
  | error problem => cases entered

theorem readLineActions_listed {lineActions : LineActions}
    (read : readLineActions node = .ok lineActions) : Listed lineActions := by
  obtain ⟨entries, -, read⟩ := exists_of_bind_ok read
  refine foldlM_keeps Listed ?_ ?_ read
  · rintro ⟨text, actions⟩ - lineActions next listed stepped
    obtain ⟨line, found, stepped⟩ := exists_of_bind_ok stepped
    obtain rfl := Except.ok.inj stepped
    have small := readLineNumber_lt (exists_of_orEntry found)
    split
    · exact listed
    · rename_i nonempty
      intro other others there
      rw [Std.ExtTreeMap.getElem?_insert] at there
      split at there
      · rename_i same
        obtain rfl := Option.some.inj there
        obtain rfl := Nat.compare_eq_eq.mp same
        exact ⟨small, by simpa using nonempty⟩
      · exact listed other others there
  · intro line actions none
    simp at none

theorem readStackField_storable {entry : String × Node} (storable : settings.Storable)
    (read : readStackField settings entry = .ok next) : next.Storable := by
  unfold readStackField at read
  split at read
  · obtain ⟨text, -, read⟩ := exists_of_bind_ok read
    obtain ⟨word, -, read⟩ := exists_of_bind_ok read
    obtain rfl := Except.ok.inj read
    exact ⟨storable.breakpoints, storable.lineActions, storable.stepsPerRun, storable.maxRuns⟩
  · obtain rfl := Except.ok.inj read
    exact storable

theorem readRunField_storable {entry : String × Node} (ranged : entry.2.Ranged)
    (storable : settings.Storable) (read : readRunField settings entry = .ok next) :
    next.Storable := by
  unfold readRunField at read
  split at read
  · obtain ⟨number, found, read⟩ := exists_of_bind_ok read
    obtain rfl := Except.ok.inj read
    exact { storable with stepsPerRun := readNatural_lt ranged found }
  · split at read
    · obtain ⟨number, found, read⟩ := exists_of_bind_ok read
      obtain rfl := Except.ok.inj read
      exact { storable with maxRuns := readNatural_lt ranged found }
    · obtain rfl := Except.ok.inj read
      exact storable

theorem readField_storable {entry : String × Node} (ranged : entry.2.Ranged)
    (storable : settings.Storable) (read : readField settings entry = .ok next) : next.Storable := by
  obtain ⟨key, node⟩ := entry
  unfold readField at read
  dsimp only at read
  split at read
  · obtain ⟨items, found, read⟩ := exists_of_bind_ok read
    obtain ⟨lines, all, read⟩ := exists_of_bind_ok read
    obtain rfl := Except.ok.inj read
    refine { storable with breakpoints := fun line member => ?_ }
    obtain ⟨item, inside, number⟩ := exists_of_mem_mapM all line member
    exact readNatural_lt (readItems_ranged ranged found item inside) number
  · split at read
    · obtain ⟨entries, -, read⟩ := exists_of_bind_ok read
      exact foldlM_keeps Storable (fun _ _ _ _ storable => readStackField_storable storable)
        storable read
    · split at read
      · obtain ⟨registers, -, read⟩ := exists_of_bind_ok read
        obtain rfl := Except.ok.inj read
        exact ⟨storable.breakpoints, storable.lineActions, storable.stepsPerRun, storable.maxRuns⟩
      · split at read
        · obtain ⟨lineActions, found, read⟩ := exists_of_bind_ok read
          obtain rfl := Except.ok.inj read
          exact { storable with lineActions := readLineActions_listed found }
        · split at read
          · obtain ⟨entries, found, read⟩ := exists_of_bind_ok read
            have each := readRecord_ranged ranged found
            exact foldlM_keeps Storable
              (fun entry member _ _ storable => readRunField_storable (each entry member) storable)
              storable read
          · obtain rfl := Except.ok.inj read
            exact storable

theorem storable_default : Storable {} where
  breakpoints := List.forall_mem_nil _
  lineActions := by
    intro line actions none
    simp at none
  stepsPerRun := by decide
  maxRuns := by decide

/-- Settings that were loaded can be written again. -/
theorem storable_of_load {text : String} (loaded : load text = .ok settings) :
    settings.Storable ∧ settings.stepsPerRun ≠ 0 := by
  unfold load at loaded
  split at loaded
  · cases loaded
  · rename_i entries read
    obtain ⟨found, run, loaded⟩ := exists_of_bind_ok loaded
    split at loaded
    · cases loaded
    · rename_i positive
      obtain rfl := Except.ok.inj loaded
      refine ⟨?_, positive⟩
      have ranged := Entries.read?_ranged read
      exact foldlM_keeps Storable
        (fun entry member _ _ storable => readField_storable (ranged entry member) storable)
        storable_default run

end AsmLab.Settings
