import AsmLab.Proofs.Source.MnemonicText
import AsmLab.Source.Draft

/-! The catalog of mnemonics and the decoder tell the same words apart. A word is decoded if and only if
the catalog lists it, and then to the entry that is written like it. So whatever is suggested for a word
that is no mnemonic is one, and is another word. -/
namespace AsmLab

namespace Mnemonic

/-- Every mnemonic as it is written, with the width that its suffix denotes. -/
def listing : List (String × Option Size) :=
  catalog.map fun mnemonic => (mnemonic.text, mnemonic.suffixSize?)

/-- How the widths of a mnemonic go with its suffixes: without a suffix it has the width of a byte, and
only a widening move has a second width. -/
structure Regular (mnemonic : Mnemonic) : Prop where
  size : mnemonic.size = mnemonic.suffixSize?.getD .byte
  narrower : mnemonic.sourceSize < mnemonic.size ↔
    mnemonic.opcode = .movz ∨ mnemonic.opcode = .movs
  same : mnemonic.opcode ≠ .movz → mnemonic.opcode ≠ .movs →
    mnemonic.sourceSize = mnemonic.size

theorem regular_of_mem_catalog {mnemonic : Mnemonic} (listed : mnemonic ∈ catalog) :
    mnemonic.Regular := by
  have sizes : ∀ mnemonic ∈ catalog, mnemonic.size = mnemonic.suffixSize?.getD .byte := by decide
  have narrower : ∀ mnemonic ∈ catalog, mnemonic.sourceSize < mnemonic.size ↔
      mnemonic.opcode = .movz ∨ mnemonic.opcode = .movs := by decide
  have same : ∀ mnemonic ∈ catalog, mnemonic.opcode ≠ .movz → mnemonic.opcode ≠ .movs →
      mnemonic.sourceSize = mnemonic.size := by decide
  exact ⟨sizes mnemonic listed, narrower mnemonic listed, same mnemonic listed⟩

variable {word : String} {mnemonic : Mnemonic}

theorem decode_eq_ok_iff :
    decode word.toList = .ok mnemonic ↔ mnemonic ∈ catalog ∧ mnemonic.text = word := by
  constructor
  · intro decoded
    obtain ⟨listed, spelled⟩ := decode_ok decoded
    exact ⟨listed, String.toList_inj.mp spelled⟩
  · rintro ⟨listed, rfl⟩
    exact decode_text listed

theorem exists_of_mem_listing {suffix : Option Size} (listed : (word, suffix) ∈ listing) :
    ∃ mnemonic, decode word.toList = .ok mnemonic ∧ mnemonic.suffixSize? = suffix := by
  obtain ⟨entry, member, same⟩ := List.mem_map.mp listed
  obtain ⟨spelled, denoted⟩ := Prod.mk.inj same
  exact ⟨entry, decode_eq_ok_iff.mpr ⟨member, spelled⟩, denoted⟩

theorem mem_listing_of_decode (decoded : decode word.toList = .ok mnemonic) :
    (word, mnemonic.suffixSize?) ∈ listing := by
  obtain ⟨member, rfl⟩ := decode_eq_ok_iff.mp decoded
  exact List.mem_map_of_mem member

end Mnemonic

namespace Suggestion

variable {Candidate Score : Type} [LT Score] [DecidableLT Score] {threshold : Score}
  {score : Candidate → Score} {preferred : Candidate → Bool} {best : Option Candidate}
  {candidate chosen : Candidate} {candidates : List Candidate}

theorem improve_eq_or (threshold : Score) (score : Candidate → Score)
    (preferred : Candidate → Bool) (best : Option Candidate) (candidate : Candidate) :
    improve threshold score preferred best candidate = best ∨
      improve threshold score preferred best candidate = some candidate := by
  unfold improve
  split
  · exact .inl rfl
  · split
    · exact .inr rfl
    · split
      · exact .inr rfl
      · exact .inl rfl

theorem mem_of_foldl_improve
    (found : candidates.foldl (improve threshold score preferred) best = some chosen) :
    best = some chosen ∨ chosen ∈ candidates := by
  induction candidates generalizing best with
  | nil => exact .inl found
  | cons candidate rest ih =>
    rcases ih found with kept | later
    · rcases improve_eq_or threshold score preferred best candidate with same | taken
      · exact .inl (same.symm.trans kept)
      · obtain rfl := Option.some.inj (taken.symm.trans kept)
        exact .inr List.mem_cons_self
    · exact .inr (List.mem_cons_of_mem candidate later)

theorem mem_of_select (found : select threshold score preferred candidates = some chosen) :
    chosen ∈ candidates :=
  (mem_of_foldl_improve found).resolve_left nofun

theorem mem_catalog_of_mnemonicBy {score : Mnemonic → Score} {hint : Option Size}
    {offered : Mnemonic} (found : mnemonicBy threshold score hint = some offered) :
    offered ∈ Mnemonic.catalog :=
  mem_of_select found

end Suggestion

namespace Source

variable {word : Fragment} {pieces : List Fragment} {mnemonic : Mnemonic}

/-- Entries of the catalog are in lower case already. -/
theorem decodeMnemonic_of_spelled (listed : mnemonic ∈ Mnemonic.catalog)
    (spelled : word.chars = mnemonic.text.toList) : decodeMnemonic word pieces = .ok mnemonic := by
  simp only [decodeMnemonic, spelled, Mnemonic.text_lower listed, Mnemonic.decode_text listed]

/-- What an error about a mnemonic suggests is in the catalog. -/
theorem mem_catalog_of_decodeMnemonic {reason : Mnemonic.Error} {suggestion : Option Mnemonic}
    {span : Span}
    (rejected : decodeMnemonic word pieces = .error ⟨.badMnemonic reason suggestion, span⟩) :
    ∀ offered ∈ suggestion, offered ∈ Mnemonic.catalog := by
  intro offered suggested
  unfold decodeMnemonic at rejected
  simp only at rejected
  split at rejected
  · cases rejected
  · cases rejected
    obtain ⟨found, -⟩ := Option.filter_eq_some_iff.mp suggested
    rw [Suggestion.mnemonic?, Suggestion.nearestMnemonic] at found
    exact Suggestion.mem_catalog_of_mnemonicBy found

end Source

namespace Mnemonic

/-- Decoding accepts the words of the catalog and no others, and what it makes of a word is written as
that word, with the widths that the catalog tells. Whatever scores decide on a suggestion, it is
accepted in its turn, and it is not the word that was rejected. -/
theorem decode_catalog (word : String) :
    ((∃ mnemonic, decode word.toList = .ok mnemonic) ↔ word ∈ listing.map Prod.fst) ∧
    (∀ mnemonic, decode word.toList = .ok mnemonic →
      mnemonic.text = word ∧
      (∀ suffix, (word, suffix) ∈ listing → mnemonic.size = suffix.getD .byte) ∧
      (mnemonic.sourceSize < mnemonic.size ↔
        mnemonic.opcode = .movz ∨ mnemonic.opcode = .movs) ∧
      (mnemonic.opcode ≠ .movz → mnemonic.opcode ≠ .movs →
        mnemonic.sourceSize = mnemonic.size)) ∧
    (∀ {Score : Type} [LT Score] [DecidableLT Score] (threshold : Score)
        (score : Mnemonic → Score) (hint : Option Size) (offered : Mnemonic),
      Suggestion.mnemonicBy threshold score hint = some offered →
        decode offered.text.toList = .ok offered ∧
        ∀ reason, decode word.toList = .error reason → offered.text ≠ word) ∧
    ∀ (fragment : Source.Fragment) pieces reason suggestion span, fragment.text = word →
      Source.decodeMnemonic fragment pieces = .error ⟨.badMnemonic reason suggestion, span⟩ →
        ∀ offered ∈ suggestion, offered.text ≠ word ∧
          ∀ start others,
            Source.decodeMnemonic ⟨start, offered.text.toList⟩ others = .ok offered := by
  refine ⟨?accepts, ?decodes, ?suggests, ?reports⟩
  case accepts =>
    constructor
    · rintro ⟨mnemonic, decoded⟩
      exact List.mem_map_of_mem (mem_listing_of_decode decoded)
    · intro listed
      obtain ⟨⟨_, suffix⟩, member, rfl⟩ := List.mem_map.mp listed
      obtain ⟨mnemonic, decoded, -⟩ := exists_of_mem_listing member
      exact ⟨mnemonic, decoded⟩
  case decodes =>
    intro mnemonic decoded
    obtain ⟨member, spelled⟩ := decode_eq_ok_iff.mp decoded
    have regular := regular_of_mem_catalog member
    refine ⟨spelled, ?_, regular.narrower, regular.same⟩
    intro suffix listed
    obtain ⟨other, again, denoted⟩ := exists_of_mem_listing listed
    obtain rfl := Except.ok.inj (again.symm.trans decoded)
    rw [← denoted, regular.size]
  case suggests =>
    intro Score _ _ threshold score hint offered found
    have accepted := decode_text (Suggestion.mem_catalog_of_mnemonicBy found)
    refine ⟨accepted, ?_⟩
    rintro reason rejected rfl
    rw [accepted] at rejected
    cases rejected
  case reports =>
    intro fragment pieces reason suggestion span spelled rejected offered suggested
    have listed := Source.mem_catalog_of_decodeMnemonic rejected offered suggested
    refine ⟨?_, fun start others => Source.decodeMnemonic_of_spelled listed rfl⟩
    intro same
    have chars : fragment.chars = offered.text.toList := by
      rw [same, ← spelled, Source.Fragment.text, String.toList_ofList]
    rw [Source.decodeMnemonic_of_spelled listed chars] at rejected
    cases rejected

/-- Two suffixes in the wrong order, and scores under which only the right order is suggested. -/
theorem decode_catalog_order :
    let widening : Mnemonic := ⟨.movs, .quad, .long⟩
    let score : Mnemonic → Nat := fun candidate => if candidate = widening then 1 else 0
    decode "movslq".toList = .ok widening ∧ widening.sourceSize < widening.size ∧
      decode "movsql".toList = .error .suffixOrder ∧
      Suggestion.mnemonicBy 1 score none = some widening ∧ widening.text ≠ "movsql" ∧
      ∃ suggestion span,
        Source.decodeMnemonic ⟨0, "movsql".toList⟩ [] =
          .error ⟨.badMnemonic .suffixOrder suggestion, span⟩ ∧
        ∀ offered ∈ suggestion, offered.text ≠ "movsql" := by
  intro widening score
  have decoded : decode "movslq".toList = .ok widening := rfl
  have rejected : decode "movsql".toList = .error .suffixOrder := rfl
  have offered : Suggestion.mnemonicBy 1 score none = some widening := by decide +kernel
  obtain ⟨_, decodes, _⟩ := decode_catalog "movslq"
  obtain ⟨_, _, suggests, reports⟩ := decode_catalog "movsql"
  obtain ⟨_, _, narrower, _⟩ := decodes widening decoded
  refine ⟨decoded, narrower.mpr (.inr rfl), rejected, offered,
    (suggests 1 score none widening offered).2 _ rejected, ?_⟩
  have lower : "movsql".toList.map Char.toLower = "movsql".toList := by decide +kernel
  have reported : ∃ suggestion span, Source.decodeMnemonic ⟨0, "movsql".toList⟩ [] =
      .error ⟨.badMnemonic .suffixOrder suggestion, span⟩ := by
    simp only [Source.decodeMnemonic, lower, rejected]
    exact ⟨_, _, rfl⟩
  obtain ⟨suggestion, span, reported⟩ := reported
  have spelled : (⟨0, "movsql".toList⟩ : Source.Fragment).text = "movsql" := String.ofList_toList
  refine ⟨suggestion, span, reported, ?_⟩
  intro other suggested
  exact (reports _ _ _ _ _ spelled reported other suggested).1

end Mnemonic

end AsmLab
