import PregroupGrammar.Text.Lines

/-!
# Morphology

A word that the dictionary lacks may be an inflected form of one that it has. The suffix tables and
the table of irregular forms give the forms to look up instead, each made from the word itself.
-/

namespace PregroupGrammar

/-- How a form to look up was made from a word. -/
inductive MorphStep where
  | surface
  | verbal
  | nominal
  | adjectival
  | irregular
deriving DecidableEq, Repr

/-- The step in words. -/
def MorphStep.text : MorphStep → String
  | surface => "surface"
  | verbal => "verbal"
  | nominal => "nominal"
  | adjectival => "adjectival"
  | irregular => "irregular"

/-- The tables of suffixes, and of irregular forms with what replaces them. -/
structure Morphology where
  verbalSuffixes : List String := []
  nounSuffixes : List String := []
  adjectiveSuffixes : List String := []
  irregulars : List (String × String) := []
deriving DecidableEq, Repr

namespace Morphology

/-- Whether all tables are empty. -/
def isEmpty (m : Morphology) : Bool :=
  m.verbalSuffixes.isEmpty && m.nounSuffixes.isEmpty && m.adjectiveSuffixes.isEmpty &&
    m.irregulars.isEmpty

/-- The word without the suffix, if the suffix is not empty and the word ends with it. -/
def strip? (word suffix : String) : Option String :=
  if suffix.isEmpty then none
  else (Text.beforeEnding? suffix.toList word.toList).map String.ofList

/-- The word after each row of a table that applies has changed what the rows before it left. There
is none if no row applies. -/
def changeAll {α : Type} (change? : String → α → Option String) (rows : List α) (word : String) :
    Option String :=
  rows.foldl (fun form row => (change? (form.getD word) row).or form) none

/-- The word without the first verbal suffix that it ends with. -/
def stripVerbal? (m : Morphology) (word : String) : Option String :=
  m.verbalSuffixes.findSome? (strip? word)

/-- The word without the noun suffixes that it ends with, one after the other in table order. -/
def stripNominal? (m : Morphology) (word : String) : Option String :=
  changeAll strip? m.nounSuffixes word

/-- The word without the adjective suffixes that it ends with, one after the other in table
order. -/
def stripAdjectival? (m : Morphology) (word : String) : Option String :=
  changeAll strip? m.adjectiveSuffixes word

/-- The replacement in a row of the table of irregular forms, if the form is a part of the word and
not empty. -/
def replace? (word : String) (row : String × String) : Option String :=
  if !row.1.isEmpty && Text.hasPart row.1.toList word.toList then some row.2 else none

/-- The word replaced by an irregular form's replacement, later rows applying to the result of
earlier ones. -/
def replaceIrregular? (m : Morphology) (word : String) : Option String :=
  changeAll replace? m.irregulars word

/-- The forms to look up for a word, in order: the word itself, then each changed form that is not
empty. -/
def lookupForms (m : Morphology) (word : String) : List (MorphStep × String) :=
  (.surface, word) ::
    [(MorphStep.verbal, m.stripVerbal? word), (.nominal, m.stripNominal? word),
      (.adjectival, m.stripAdjectival? word), (.irregular, m.replaceIrregular? word)].filterMap
      fun (step, form) => (form.filter (!·.isEmpty)).map (step, ·)

end Morphology

end PregroupGrammar
