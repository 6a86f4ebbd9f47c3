import Mathlib.Algebra.Order.Ring.Rat
import Mathlib.Data.Bool.Basic
import Mathlib.Data.Prod.Lex
import AsmLab.Suggestion

/-! What is suggested for a word that is not known. One pass over the known words keeps a champion,
which is at any time the first of the best words so far. So a suggestion is the first of the words
that have the highest score and, if any of these is preferred, are preferred. Where no score reaches
the threshold there is none. -/
namespace AsmLab.Suggestion

section Choice

variable {Candidate Value : Type} [LinearOrder Value]

/-- The first member of a list that has a property. -/
def IsFirst (property : Candidate → Prop) (candidates : List Candidate) (chosen : Candidate) :
    Prop :=
  ∃ before after, candidates = before ++ chosen :: after ∧ property chosen ∧
    ∀ earlier ∈ before, ¬ property earlier

def IsHighest (value : Candidate → Value) (candidates : List Candidate) (chosen : Candidate) :
    Prop :=
  ∀ other ∈ candidates, value other ≤ value chosen

/-- Of the candidates with the highest value, a preferred one if there is any. -/
def IsFavourite (value : Candidate → Value) (preferred : Candidate → Prop)
    (candidates : List Candidate) (chosen : Candidate) : Prop :=
  IsHighest value candidates chosen ∧
    ((∃ other ∈ candidates, IsHighest value candidates other ∧ preferred other) →
      preferred chosen)

/-- What counts between two candidates, first the value and then the preference. -/
def merit (value : Candidate → Value) (preferred : Candidate → Bool) (candidate : Candidate) :
    Value ×ₗ Bool :=
  toLex (value candidate, preferred candidate)

/-- The champion after some candidates: less than it are those before it, and not more than it those
behind it. -/
structure Leads (least : Value) (value : Candidate → Value) (preferred : Candidate → Bool)
    (candidates : List Candidate) (chosen : Candidate) : Prop where
  reaches : least ≤ value chosen
  first : ∃ before after, candidates = before ++ chosen :: after ∧
    (∀ earlier ∈ before, merit value preferred earlier < merit value preferred chosen) ∧
    ∀ later ∈ after, merit value preferred later ≤ merit value preferred chosen

/-- What a pass knows about the candidates that it has seen. -/
def Knows (least : Value) (value : Candidate → Value) (preferred : Candidate → Bool)
    (seen : List Candidate) : Option Candidate → Prop
  | none => ∀ candidate ∈ seen, value candidate < least
  | some chosen => Leads least value preferred seen chosen

variable {least : Value} {value : Candidate → Value} {preferred : Candidate → Bool}
  {property other : Candidate → Prop} {candidates seen : List Candidate}
  {candidate chosen champion challenger : Candidate}

theorem IsFirst.mem (first : IsFirst property candidates chosen) : chosen ∈ candidates := by
  obtain ⟨before, after, rfl, -⟩ := first
  exact List.mem_append_cons_self

theorem IsFirst.congr (same : ∀ candidate ∈ candidates, property candidate ↔ other candidate) :
    IsFirst property candidates chosen ↔ IsFirst other candidates chosen := by
  refine exists₂_congr fun before after => and_congr_right ?_
  rintro rfl
  refine and_congr (same chosen List.mem_append_cons_self) (forall₂_congr ?_)
  exact fun earlier early => not_congr (same earlier (List.mem_append_left _ early))

theorem IsFirst.unique {another : Candidate} (first : IsFirst property candidates chosen)
    (second : IsFirst property candidates another) : chosen = another := by
  classical
  have found {candidate : Candidate} (isFirst : IsFirst property candidates candidate) :
      candidates.find? (fun candidate => decide (property candidate)) = some candidate := by
    obtain ⟨before, after, split, holds, fails⟩ := isFirst
    exact List.find?_eq_some_iff_append.mpr ⟨decide_eq_true holds, before, after, split,
      fun earlier early => by simp [fails earlier early]⟩
  exact Option.some.inj ((found first).symm.trans (found second))

theorem merit_lt_iff : merit value preferred champion < merit value preferred challenger ↔
    value champion < value challenger ∨
      value champion = value challenger ∧ preferred challenger ∧ ¬ preferred champion := by
  rw [merit, merit, Prod.Lex.toLex_lt_toLex, Bool.lt_iff, Bool.not_eq_true]
  exact or_congr_right (and_congr_right fun _ => and_comm)

theorem merit_le_iff : merit value preferred challenger ≤ merit value preferred champion ↔
    value challenger < value champion ∨
      value challenger = value champion ∧ (preferred challenger → preferred champion) := by
  rw [merit, merit, Prod.Lex.toLex_le_toLex, Bool.le_iff_imp]

theorem merit_lt_of_value_lt (less : value champion < value challenger) :
    merit value preferred champion < merit value preferred challenger :=
  merit_lt_iff.mpr (.inl less)

/-- The greatest merit is that of the favourites. -/
theorem isHighest_merit_iff (member : chosen ∈ candidates) :
    IsHighest (merit value preferred) candidates chosen ↔
      IsFavourite value (preferred ·) candidates chosen := by
  constructor
  · intro highest
    have above : IsHighest value candidates chosen := by
      intro other listed
      rcases merit_le_iff.mp (highest other listed) with less | ⟨same, -⟩
      · exact less.le
      · exact same.le
    refine ⟨above, ?_⟩
    rintro ⟨other, listed, equal, prefers⟩
    rcases merit_le_iff.mp (highest other listed) with less | ⟨-, keeps⟩
    · exact absurd less (equal chosen member).not_gt
    · exact keeps prefers
  · rintro ⟨above, favoured⟩ other listed
    rw [merit_le_iff]
    rcases (above other listed).lt_or_eq with less | same
    · exact .inl less
    -- Then the other one is highest too, and what decides is whether it is preferred.
    · have equal : IsHighest value candidates other :=
        fun third present => (above third present).trans same.ge
      exact .inr ⟨same, fun prefers => favoured ⟨other, listed, equal, prefers⟩⟩

theorem isFavourite_false :
    IsFavourite value (fun _ => False) candidates chosen ↔ IsHighest value candidates chosen :=
  and_iff_left fun ⟨_, _, _, impossible⟩ => impossible

theorem Leads.merit_le (leads : Leads least value preferred candidates chosen) :
    IsHighest (merit value preferred) candidates chosen := by
  obtain ⟨before, after, rfl, earlier, later⟩ := leads.first
  intro other listed
  rcases List.mem_append.mp listed with early | rest
  · exact (earlier other early).le
  · rcases List.mem_cons.mp rest with rfl | late
    · exact le_rfl
    · exact later other late

theorem Leads.keep (leads : Leads least value preferred seen chosen)
    (weak : merit value preferred candidate ≤ merit value preferred chosen) :
    Leads least value preferred (seen ++ [candidate]) chosen := by
  obtain ⟨before, after, rfl, earlier, later⟩ := leads.first
  refine ⟨leads.reaches, before, after ++ [candidate], by simp, earlier, fun other late => ?_⟩
  rcases List.mem_append.mp late with behind | last
  · exact later other behind
  · rwa [List.mem_singleton.mp last]

theorem Leads.last (reaches : least ≤ value candidate)
    (strong : ∀ earlier ∈ seen, merit value preferred earlier < merit value preferred candidate) :
    Leads least value preferred (seen ++ [candidate]) candidate :=
  ⟨reaches, seen, [], rfl, strong, List.forall_mem_nil _⟩

/-- The champion in the end is the first favourite. -/
theorem Leads.isFirst (leads : Leads least value preferred candidates chosen) :
    IsFirst (IsFavourite value (preferred ·) candidates) candidates chosen := by
  have highest := leads.merit_le
  rw [← IsFirst.congr fun candidate member => isHighest_merit_iff member]
  obtain ⟨before, after, split, earlier, -⟩ := leads.first
  refine ⟨before, after, split, highest, fun other early equal => ?_⟩
  have member : chosen ∈ candidates := split ▸ List.mem_append_cons_self
  exact (earlier other early).not_ge (equal chosen member)

end Choice

section Pass

variable {Candidate Score Value : Type} [LT Score] [LinearOrder Value]

/-- Scores that compare as their values do, so that none is incomparable. -/
structure Valued (threshold : Score) (score : Candidate → Score) (least : Value)
    (value : Candidate → Value) : Prop where
  low : ∀ candidate, score candidate < threshold ↔ value candidate < least
  less : ∀ candidate other, score candidate < score other ↔ value candidate < value other

variable {threshold : Score} {score : Candidate → Score} {least : Value}
  {value : Candidate → Value} {preferred : Candidate → Bool}

theorem Valued.comp {Known : Type} (valued : Valued threshold score least value)
    (spelling : Known → Candidate) :
    Valued threshold (score ∘ spelling) least (value ∘ spelling) :=
  ⟨fun known => valued.low (spelling known),
    fun known other => valued.less (spelling known) (spelling other)⟩

variable [DecidableLT Score]

theorem beats_iff (valued : Valued threshold score least value) (challenger champion : Candidate) :
    beats score preferred challenger champion = true ↔
      merit value preferred champion < merit value preferred challenger := by
  rw [merit_lt_iff]
  simp only [beats, Bool.or_eq_true, Bool.and_eq_true, Bool.not_eq_true', decide_eq_true_eq,
    decide_eq_false_iff_not, valued.less, and_assoc, Bool.not_eq_true]
  constructor
  · rintro (less | ⟨notLess, prefers⟩)
    · exact .inl less
    · exact (le_of_not_gt notLess).lt_or_eq.imp_right fun same => ⟨same, prefers⟩
  · rintro (less | ⟨same, prefers⟩)
    · exact .inl less
    · exact .inr ⟨same.not_gt, prefers⟩

/-- One more candidate. -/
theorem improve_knows (valued : Valued threshold score least value) {seen : List Candidate}
    {best : Option Candidate} (known : Knows least value preferred seen best)
    (candidate : Candidate) :
    Knows least value preferred (seen ++ [candidate])
      (improve threshold score preferred best candidate) := by
  unfold improve
  split
  · rename_i low
    have below := (valued.low candidate).mp low
    -- It is passed over. A champion reaches the threshold, so this is one more that is less than it.
    cases best with
    | none => exact List.forall_mem_append.mpr ⟨known, List.forall_mem_singleton.mpr below⟩
    | some champion => exact known.keep (merit_lt_of_value_lt (below.trans_le known.reaches)).le
  · rename_i high
    have reaches := le_of_not_gt (mt (valued.low candidate).mpr high)
    cases best with
    | none =>
      -- All before it were too low, so it is the first to lead.
      exact Leads.last reaches fun earlier early =>
        merit_lt_of_value_lt ((known earlier early).trans_le reaches)
    | some champion =>
      dsimp only
      split
      · rename_i wins
        rw [beats_iff valued] at wins
        exact Leads.last reaches fun earlier early => (known.merit_le earlier early).trans_lt wins
      · rename_i loses
        rw [beats_iff valued] at loses
        exact known.keep (le_of_not_gt loses)

/-- All candidates, one after the other. The induction is on those to come, and what was seen grows. -/
theorem foldl_knows (valued : Valued threshold score least value) {seen : List Candidate}
    {best : Option Candidate} (known : Knows least value preferred seen best)
    (candidates : List Candidate) :
    Knows least value preferred (seen ++ candidates)
      (candidates.foldl (improve threshold score preferred) best) := by
  induction candidates generalizing seen best with
  | nil => rwa [List.append_nil]
  | cons candidate rest ih =>
    rw [List.append_cons]
    exact ih (improve_knows valued known candidate)

variable (valued : Valued threshold score least value) (candidates : List Candidate)

include valued in
theorem select_knows : Knows least value preferred candidates
    (select threshold score preferred candidates) := by
  have start : Knows least value preferred [] none := List.forall_mem_nil _
  exact foldl_knows valued start candidates

include valued in
theorem select_eq_none_iff : select threshold score preferred candidates = none ↔
    ¬ ∃ candidate ∈ candidates, least ≤ value candidate := by
  have known : Knows least value preferred candidates _ := select_knows valued candidates
  constructor
  · intro missing
    rw [missing] at known
    rintro ⟨candidate, listed, reaches⟩
    exact (known candidate listed).not_ge reaches
  · intro low
    cases result : select threshold score preferred candidates with
    | none => rfl
    | some chosen =>
      rw [result] at known
      exact absurd ⟨chosen, known.isFirst.mem, known.reaches⟩ low

include valued in
theorem select_eq_some_iff {prefers : Candidate → Prop}
    (means : ∀ candidate, preferred candidate = true ↔ prefers candidate) {chosen : Candidate} :
    select threshold score preferred candidates = some chosen ↔
      least ≤ value chosen ∧ IsFirst (IsFavourite value prefers candidates) candidates chosen := by
  obtain rfl : (preferred · = true) = prefers := funext fun candidate => propext (means candidate)
  have known : Knows least value preferred candidates _ := select_knows valued candidates
  constructor
  · intro found
    rw [found] at known
    exact ⟨known.reaches, known.isFirst⟩
  · rintro ⟨reaches, first⟩
    cases result : select threshold score preferred candidates with
    | none =>
      rw [select_eq_none_iff valued] at result
      exact absurd ⟨chosen, first.mem, reaches⟩ result
    | some champion =>
      rw [result] at known
      rw [known.isFirst.unique first]

end Pass

section Nearest

variable {Score Value : Type} [LT Score] [DecidableLT Score] [LinearOrder Value]
  {similarity : List Char → List Char → Score} {threshold : Score}
  {degree : List Char → List Char → Value} {least : Value}
  (valued : ∀ word, Valued threshold (similarity word) least (degree word))
  (word : String) (hint : Option Size)
include valued

theorem nearestMnemonic_eq_none_iff :
    nearestMnemonic similarity threshold word hint = none ↔
      ¬ ∃ entry ∈ Mnemonic.catalog, least ≤ degree word.toList entry.text.toList :=
  select_eq_none_iff ((valued word.toList).comp fun entry : Mnemonic => entry.text.toList) _

theorem nearestMnemonic_eq_some_iff {chosen : Mnemonic} :
    let value (entry : Mnemonic) := degree word.toList entry.text.toList
    let hinted (entry : Mnemonic) := hint ≠ none ∧ entry.suffixSize? = hint
    nearestMnemonic similarity threshold word hint = some chosen ↔
      least ≤ value chosen ∧
        IsFirst (IsFavourite value hinted Mnemonic.catalog) Mnemonic.catalog chosen := by
  intro value hinted
  have entries := (valued word.toList).comp fun entry : Mnemonic => entry.text.toList
  have means (entry : Mnemonic) :
      (hint.isSome && decide (entry.suffixSize? = hint)) = true ↔ hinted entry := by
    rw [Bool.and_eq_true, Option.isSome_iff_ne_none, decide_eq_true_eq]
  exact select_eq_some_iff entries _ means

theorem nearestRegister_eq_none_iff :
    nearestRegister similarity threshold word = none ↔
      ¬ ∃ register ∈ Register.all,
        least ≤ degree (word.map Char.toLower).toList register.name.toList :=
  select_eq_none_iff ((valued _).comp fun register : Register => register.name.toList) _

theorem nearestRegister_eq_some_iff {chosen : Register} :
    let likeness (register : Register) :=
      degree (word.map Char.toLower).toList register.name.toList
    nearestRegister similarity threshold word = some chosen ↔
      least ≤ likeness chosen ∧ IsFirst (IsHighest likeness Register.all) Register.all chosen := by
  intro likeness
  have registers := (valued (word.map Char.toLower).toList).comp
    fun register : Register => register.name.toList
  have unpreferred (register : Register) : false = true ↔ False := Bool.false_eq_true.to_iff
  rw [← IsFirst.congr fun register _ => isFavourite_false]
  exact select_eq_some_iff registers _ unpreferred

end Nearest

variable {Score Value : Type} [LT Score] [DecidableLT Score] [LinearOrder Value]

/-- The degrees of the similarity may be any that compare like the values of a total order, as floating
point numbers do. A mnemonic is suggested if and only if one of the catalog reaches the threshold, and
it is the first of those that have the highest value and, if any of these has the width of the hint,
have that width. In the same way a register is the first one with the highest value, however the
letters of the word are cased. -/
theorem nearest_first {similarity : List Char → List Char → Score} {threshold : Score}
    {degree : List Char → List Char → Value} {least : Value}
    (valued : ∀ word, Valued threshold (similarity word) least (degree word))
    (word : String) (hint : Option Size) :
    let value (entry : Mnemonic) := degree word.toList entry.text.toList
    let hinted (entry : Mnemonic) := hint ≠ none ∧ entry.suffixSize? = hint
    let lower := word.map Char.toLower
    let likeness (register : Register) := degree lower.toList register.name.toList
    (nearestMnemonic similarity threshold word hint = none ↔
      ¬ ∃ entry ∈ Mnemonic.catalog, least ≤ value entry) ∧
    (∀ chosen, nearestMnemonic similarity threshold word hint = some chosen ↔
      least ≤ value chosen ∧
        IsFirst (IsFavourite value hinted Mnemonic.catalog) Mnemonic.catalog chosen) ∧
    (nearestRegister similarity threshold word = none ↔
      ¬ ∃ register ∈ Register.all, least ≤ likeness register) ∧
    (∀ chosen, nearestRegister similarity threshold word = some chosen ↔
      least ≤ likeness chosen ∧
        IsFirst (IsHighest likeness Register.all) Register.all chosen) ∧
    ∀ other : String, other.map Char.toLower = lower →
      nearestRegister similarity threshold other = nearestRegister similarity threshold word := by
  intro value hinted lower likeness
  refine ⟨nearestMnemonic_eq_none_iff valued word hint,
    fun _ => nearestMnemonic_eq_some_iff valued word hint, nearestRegister_eq_none_iff valued word,
    fun _ => nearestRegister_eq_some_iff valued word, fun other same => ?_⟩
  rw [nearestRegister, nearestRegister, same]

/-- In exact numbers: a word of which the hint decides what it was meant to be, and a register with a
letter too many. -/
theorem nearest_first_movk :
    let similarity : List Char → List Char → ℚ := Similarity.jaroWinkler
    let value (entry : Mnemonic) := similarity "movk".toList entry.text.toList
    let hinted (entry : Mnemonic) := some Size.long ≠ none ∧ entry.suffixSize? = some .long
    let likeness (register : Register) := similarity "raxx".toList register.name.toList
    (∀ word, Valued (4 / 5) (similarity word) (4 / 5) (similarity word)) ∧
    nearestMnemonic similarity (4 / 5) "movk" (some .long) = some (.uniform .mov .long) ∧
    IsFirst (IsFavourite value hinted Mnemonic.catalog) Mnemonic.catalog (.uniform .mov .long) ∧
    nearestRegister similarity (4 / 5) "RaxX" = some Gpr.rax.full ∧
    IsFirst (IsHighest likeness Register.all) Register.all Gpr.rax.full := by
  intro similarity value hinted likeness
  have valued : ∀ word, Valued (4 / 5) (similarity word) (4 / 5) (similarity word) :=
    fun word => ⟨fun _ => Iff.rfl, fun _ _ => Iff.rfl⟩
  have decided :
      nearestMnemonic similarity (4 / 5) "movk" (some .long) = some (.uniform .mov .long) := by
    decide +kernel
  have cased : nearestRegister similarity (4 / 5) "RaxX" = some Gpr.rax.full := by decide +kernel
  have lower : "RaxX".map Char.toLower = "raxx" := by decide +kernel
  obtain ⟨_, hint, _⟩ := nearest_first valued "movk" (some .long)
  obtain ⟨_, _, _, register, _⟩ := nearest_first valued "RaxX" none
  rw [lower] at register
  exact ⟨valued, decided, ((hint _).mp decided).2, cased, ((register _).mp cased).2⟩

section Offered

variable {Value : Type} [LinearOrder Value] {degree : List Char → List Char → Value} {least : Value}
  (valued : ∀ word, Valued threshold (Similarity.jaroWinkler word) least (degree word))
  (word : String)
include valued

/-- The mnemonic that an error offers. -/
theorem mnemonic?_first (hint : Option Size) :
    let value (entry : Mnemonic) := degree word.toList entry.text.toList
    let hinted (entry : Mnemonic) := hint ≠ none ∧ entry.suffixSize? = hint
    (mnemonic? word hint = none ↔ ¬ ∃ entry ∈ Mnemonic.catalog, least ≤ value entry) ∧
    ∀ chosen, mnemonic? word hint = some chosen ↔
      least ≤ value chosen ∧
        IsFirst (IsFavourite value hinted Mnemonic.catalog) Mnemonic.catalog chosen :=
  ⟨nearestMnemonic_eq_none_iff valued word hint,
    fun _ => nearestMnemonic_eq_some_iff valued word hint⟩

/-- The register that an error offers. -/
theorem register?_first :
    let likeness (register : Register) :=
      degree (word.map Char.toLower).toList register.name.toList
    (register? word = none ↔ ¬ ∃ register ∈ Register.all, least ≤ likeness register) ∧
    ∀ chosen, register? word = some chosen ↔
      least ≤ likeness chosen ∧ IsFirst (IsHighest likeness Register.all) Register.all chosen :=
  ⟨nearestRegister_eq_none_iff valued word, fun _ => nearestRegister_eq_some_iff valued word⟩

end Offered

end AsmLab.Suggestion
