import Mathlib
import AsmLab.Isa.Instruction

/-! What the operations of a label table do to its names and to the lines of its labels. Names are
only ever appended, and no name is entered twice. -/
namespace AsmLab

namespace LabelTable

def names (table : LabelTable) : List String :=
  table.entries.map LabelEntry.name

theorem name?_eq (table : LabelTable) (id : LabelId) : table.name? id = table.names[id.index]? := by
  rw [name?, names, List.getElem?_map]

theorem name?_of_lookup? {table : LabelTable} {name : String} {id : LabelId}
    (found : table.lookup? name = some id) : table.name? id = some name := by
  obtain ⟨index, search, rfl⟩ := Option.map_eq_some_iff.mp found
  obtain ⟨bound, same, _⟩ := List.findIdx?_eq_some_iff_getElem.mp search
  rw [name?, List.getElem?_eq_getElem bound]
  simpa using same

theorem not_mem_of_lookup? {table : LabelTable} {name : String} (absent : table.lookup? name = none) :
    name ∉ table.names := by
  intro member
  obtain ⟨entry, listed, same⟩ := List.mem_map.mp member
  have differs := List.findIdx?_eq_none_iff.mp (Option.map_eq_none_iff.mp absent) entry listed
  simp [same] at differs

theorem lookup?_eq_some_iff {table : LabelTable} {name : String} {id : LabelId}
    (distinct : table.names.Nodup) :
    table.lookup? name = some id ↔ table.name? id = some name := by
  refine ⟨name?_of_lookup?, fun named => ?_⟩
  cases found : table.lookup? name with
  | none =>
    rw [name?_eq] at named
    exact absurd (List.mem_of_getElem? named) (not_mem_of_lookup? found)
  | some other =>
    have sameName := name?_of_lookup? found
    rw [name?_eq] at named sameName
    have bound := (List.getElem?_eq_some_iff.mp sameName).1
    have sameIndex := (List.getElem?_inj bound distinct).mp (sameName.trans named.symm)
    obtain ⟨index⟩ := id
    obtain ⟨otherIndex⟩ := other
    simpa using sameIndex

/-- A later table: it has more names, no definition is gained or lost, and no name is doubled. -/
structure Extends (old new : LabelTable) : Prop where
  names : old.names <+: new.names
  distinct : old.names.Nodup → new.names.Nodup
  lines : ∀ id, new.line? id = old.line? id

namespace Extends

theorem refl (table : LabelTable) : table.Extends table :=
  ⟨List.prefix_rfl, id, fun _ => rfl⟩

theorem trans {old middle new : LabelTable} (first : old.Extends middle)
    (second : middle.Extends new) : old.Extends new where
  names := first.names.trans second.names
  distinct := second.distinct ∘ first.distinct
  lines id := (second.lines id).trans (first.lines id)

end Extends

theorem name?_mono {old new : LabelTable} (grown : old.names <+: new.names) {id : LabelId}
    {name : String} (named : old.name? id = some name) : new.name? id = some name := by
  rw [name?_eq] at *
  obtain ⟨added, whole⟩ := grown
  rw [← whole, List.getElem?_append_left (List.getElem?_eq_some_iff.mp named).1, named]

theorem name?_intern (table : LabelTable) (name : String) :
    (table.intern name).2.name? (table.intern name).1 = some name := by
  unfold intern
  split
  · rename_i id found
    exact name?_of_lookup? found
  · simp [name?, size]

theorem intern_extends (table : LabelTable) (name : String) :
    table.Extends (table.intern name).2 := by
  unfold intern
  split
  · exact .refl table
  · rename_i absent
    refine ⟨by simp [LabelTable.names], ?_, ?_⟩
    · intro distinct
      rw [LabelTable.names, List.map_append, ← LabelTable.names]
      have fresh := not_mem_of_lookup? absent
      refine List.nodup_append.mpr ⟨distinct, by simp, ?_⟩
      rintro other member _ added rfl
      obtain rfl := List.mem_singleton.mp added
      exact fresh member
    · intro id
      rw [line?, line?, List.getElem?_append]
      split
      · rfl
      · rename_i outside
        rw [List.getElem?_eq_none (Nat.le_of_not_lt outside)]
        cases id.index - table.entries.length <;> simp

/-- A name with a definition is in the table already. -/
theorem intern_of_defined {table : LabelTable} {name : String} {line : Nat}
    (defined : (table.intern name).2.line? (table.intern name).1 = some line) :
    (table.intern name).2 = table := by
  unfold intern at *
  split at defined
  · rfl
  · simp [line?, size] at defined

@[simp]
theorem names_define (table : LabelTable) (id : LabelId) (line : Nat) :
    (table.define id line).names = table.names := by
  apply List.ext_getElem?
  intro index
  simp only [names, define, List.getElem?_map, List.getElem?_modify]
  cases table.entries[index]? with
  | none => rfl
  | some entry => by_cases same : id.index = index <;> simp [same]

@[simp]
theorem names_undefineAll (table : LabelTable) : table.undefineAll.names = table.names := by
  simp [names, undefineAll, Function.comp_def]

@[simp]
theorem line?_undefineAll (table : LabelTable) (id : LabelId) : table.undefineAll.line? id = none := by
  simp [line?, undefineAll]

theorem line?_define {table : LabelTable} {id : LabelId} {name : String} {line : Nat}
    (known : table.name? id = some name) (other : LabelId) :
    (table.define id line).line? other = if other = id then some line else table.line? other := by
  obtain ⟨index⟩ := id
  obtain ⟨otherIndex⟩ := other
  obtain ⟨entry, found, _⟩ := Option.map_eq_some_iff.mp known
  simp only [line?, define, List.getElem?_modify, LabelId.mk.injEq]
  by_cases same : index = otherIndex
  · subst same
    simp [found]
  · simp [same, Ne.symm same]

end LabelTable

end AsmLab
