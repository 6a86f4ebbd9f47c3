import AsmLab.Isa.Mnemonic
import AsmLab.Machine.Register
import AsmLab.Similarity
/-!
The nearest known word to a misspelt one. Selection needs an order on scores only, so it is stated for
scores of any type.
-/
namespace AsmLab.Suggestion

section Selection

variable {Candidate Score : Type} [LT Score] [DecidableLT Score]

/-- A better score wins; of equal scores a preferred candidate wins over one that is not. -/
def beats (score : Candidate → Score) (preferred : Candidate → Bool)
    (challenger champion : Candidate) : Bool :=
  score champion < score challenger ||
    (!decide (score challenger < score champion) && preferred challenger && !preferred champion)

def improve (threshold : Score) (score : Candidate → Score) (preferred : Candidate → Bool)
    (best : Option Candidate) (candidate : Candidate) : Option Candidate :=
  if score candidate < threshold then best
  else
    match best with
    | none => some candidate
    | some champion => if beats score preferred candidate champion then some candidate else best

/-- The first of the best candidates that reach the threshold. -/
def select (threshold : Score) (score : Candidate → Score) (preferred : Candidate → Bool)
    (candidates : List Candidate) : Option Candidate :=
  candidates.foldl (improve threshold score preferred) none

/-- The nearest mnemonic; among equally near ones the hinted width is preferred. -/
def mnemonicBy (threshold : Score) (score : Mnemonic → Score) (hint : Option Size) :
    Option Mnemonic :=
  select threshold score (fun candidate => hint.isSome && candidate.suffixSize? = hint)
    Mnemonic.catalog

def registerBy (threshold : Score) (score : Register → Score) : Option Register :=
  select threshold score (fun _ => false) Register.all

/-- The mnemonic that is written most like a word. -/
def nearestMnemonic (similarity : List Char → List Char → Score) (threshold : Score)
    (word : String) (hint : Option Size) : Option Mnemonic :=
  mnemonicBy threshold (fun candidate => similarity word.toList candidate.text.toList) hint

/-- The register whose name is most like another one. Letter case does not matter. -/
def nearestRegister (similarity : List Char → List Char → Score) (threshold : Score)
    (name : String) : Option Register :=
  let lower := (name.map Char.toLower).toList
  registerBy threshold (fun candidate => similarity lower candidate.name.toList)

end Selection

/-- Words less similar than this are not suggested. -/
def threshold : Float := 0.8

def mnemonic? (word : String) (hint : Option Size) : Option Mnemonic :=
  nearestMnemonic Similarity.jaroWinkler threshold word hint

def register? (name : String) : Option Register :=
  nearestRegister Similarity.jaroWinkler threshold name

end AsmLab.Suggestion
