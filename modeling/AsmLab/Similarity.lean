/-!
Jaro-Winkler similarity of two words: how many letters they share close to the same place, how many of
these are out of order, and how long a beginning they have in common. The numbers that tell the degree may be
of any kind.
-/
namespace AsmLab.Similarity

/-- Marks the first unmarked `char` at a position from `low` up to `high`. -/
def mark (char : Char) (low high : Nat) : Nat → List (Char × Bool) → Option (List (Char × Bool))
  | _, [] => none
  | position, (other, taken) :: rest =>
    if !taken && low ≤ position && position < high && other = char then some ((other, true) :: rest)
    else (mark char low high (position + 1) rest).map ((other, taken) :: ·)

/-- The letters of the first word that find a partner in the second, and the second with its partners
marked. Each letter takes the first free partner at most `range` places away. -/
def pair (range : Nat) : Nat → List Char → List (Char × Bool) → List Char × List (Char × Bool)
  | _, [], second => ([], second)
  | position, char :: rest, second =>
    match mark char (position - range) (position + range + 1) 0 second with
    | none => pair range (position + 1) rest second
    | some second =>
      let (letters, second) := pair range (position + 1) rest second
      (char :: letters, second)

/-- Length of the common beginning, of which four letters count. -/
def commonStart (first second : List Char) : Nat :=
  (((first.zip second).take 4).takeWhile fun (own, other) => own = other).length

section Degree

variable {Number : Type} [∀ number, OfNat Number number]

def count (letters : Nat) : Number :=
  OfNat.ofNat letters

variable [OfScientific Number] [Add Number] [Sub Number] [Mul Number] [Div Number] [LT Number]
  [DecidableLT Number]

def jaro (first second : List Char) : Number :=
  if first.isEmpty && second.isEmpty then 1
  else if first.isEmpty || second.isEmpty then 0
  else
    let range := max first.length second.length / 2 - 1
    let (letters, marked) := pair range 0 first (second.map (·, false))
    let partners := (marked.filter Prod.snd).map Prod.fst
    let displaced := ((letters.zip partners).filter fun (own, other) => own ≠ other).length
    let matched : Number := count letters.length
    let inOrder := matched - count (displaced / 2)
    if letters.isEmpty then 0
    else (matched / count first.length + matched / count second.length + inOrder / matched) / 3

/-- A common beginning counts for words that are similar without it. -/
def jaroWinkler (first second : List Char) : Number :=
  let score : Number := jaro first second
  if 0.7 < score then score + 0.1 * count (commonStart first second) * (1 - score) else score

end Degree

end AsmLab.Similarity
