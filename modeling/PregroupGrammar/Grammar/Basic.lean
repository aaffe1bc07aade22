import PregroupGrammar.Lexicon
import PregroupGrammar.Morphology
import PregroupGrammar.ReductionTable
import PregroupGrammar.Text.Lowercase

/-!
# Grammars

A grammar is what a parse reads and never changes: the atom types with their reduction table and
the standalone ones among them, the marker categories, the metarules, the dictionary and the
morphology. The dictionary does not distinguish upper and lower case.
-/

namespace PregroupGrammar

/-- A category of markers and its values. A marker names a value by its position, counted from
1. -/
structure MarkerCategory where
  name : String
  values : List String
deriving DecidableEq, Repr

/-- A grammar. -/
structure Grammar where
  table : ReductionTable
  standalones : List String
  markers : List MarkerCategory
  metarules : List Metarule
  lexicon : Lexicon
  morphology : Morphology
  settings : GrammarSettings
deriving DecidableEq

namespace Grammar

/-- The dictionary entry of a word, in whatever case it is written. -/
def entry? (g : Grammar) (word : String) : Option Entry :=
  g.lexicon.find? (Text.lowercase word)

/-- The dictionary entry of the first form of the word that has one. -/
def resolve (g : Grammar) (word : String) : Except Error Entry :=
  match (g.morphology.lookupForms word).findSome? fun (_, form) => g.entry? form with
  | some entry => .ok entry
  | none => .error (.unknownWord word)

/-- The dummy atom with an adjoint. -/
def dummyAtom (g : Grammar) (adjoint : Int32) : Atom :=
  .plain g.table.dummy adjoint

/-- Whether the name is one of the standalone types or reduces to one. -/
def reachesStandalone (table : ReductionTable) (name : String) :
    List String → Except Error Bool
  | [] => .ok false
  | standalone :: standalones =>
    if name = standalone then .ok true
    else
      match table.namesReduce name standalone with
      | .error e => .error e
      | .ok true => .ok true
      | .ok false => reachesStandalone table name standalones

/-- Whether an atom may be what a sentence reduces to. -/
def isStandalone (g : Grammar) (a : Atom) : Except Error Bool :=
  reachesStandalone g.table a.name g.standalones

/-- The category and the value that a marker names, if both are declared. -/
def describeMarker? (g : Grammar) (marker : Marker) : Option String := do
  let category ← g.markers[marker.category.toNat]?
  let value ← if marker.value = 0 then none else category.values[marker.value.toNat - 1]?
  return category.name ++ "=" ++ value

/-- Whether the left atom cancels with the right one: one of their types reduces to the other, the
adjoint rises by one from left to right, and the markers agree. A dummy atom cancels with a dummy
atom only. -/
def reduces (g : Grammar) (left right : Atom) : Except Error Bool := do
  let forth ← g.table.atomsReduce left right
  let back ← g.table.atomsReduce right left
  return (forth || back) && g.table.isDummy left == g.table.isDummy right &&
    left.isFollowedBy right && left.markersAgree right

/-- The text of a grammar. -/
def text (g : Grammar) : String :=
  let list (label : String) (names : List String) : String :=
    label ++ ": " ++ Text.joinWith ", " names ++ "\n"
  let block (title : String) (rows : List String) : String :=
    title ++ ":\n" ++ String.join (rows.map fun row => "  " ++ row ++ "\n")
  list "Atom types" g.table.inventory ++
  list "Standalone types" g.standalones ++
  (if g.markers.isEmpty then ""
    else block "Markers" (g.markers.map fun c => c.name ++ ": " ++ Text.joinWith ", " c.values)) ++
  block ("Dictionary (" ++ Numeral.natText g.lexicon.entries.length ++ " entries)")
    (g.lexicon.entries.map Entry.text) ++
  list "Verbal suffixes" g.morphology.verbalSuffixes ++
  list "Noun suffixes" g.morphology.nounSuffixes ++
  list "Adjective suffixes" g.morphology.adjectiveSuffixes ++
  String.join (g.morphology.irregulars.map fun (form, replacement) =>
    "Irregular: " ++ form ++ " --> " ++ replacement ++ "\n") ++
  (if g.metarules.isEmpty then "" else block "Metarules" (g.metarules.map Metarule.text)) ++
  block "Reduction rules" (g.table.rules.map fun (source, target) => source ++ " < " ++ target) ++
  g.table.grid

end Grammar

end PregroupGrammar
