import PregroupGrammar.Metarule.Basic

/-!
# Faults of a grammar text

Each way in which a line, or a section, of a grammar text can fail to have its form.
-/

namespace PregroupGrammar

/-- The sections that begin with a count of what they declare. -/
inductive Counted where
  | atomTypes
  | markerCategories
deriving DecidableEq, Repr

/-- What is counted, in words. -/
def Counted.message : Counted → String
  | atomTypes => "atom types"
  | markerCategories => "marker categories"

/-- The lines that consist of two fields. -/
inductive TwoFields where
  | irregular
  | metarule
  | entry
  | reduction
deriving DecidableEq, Repr

namespace TwoFields

/-- The character between the two fields. -/
def separator : TwoFields → Char
  | irregular => '>'
  | metarule => '<'
  | entry => ':'
  | reduction => '<'

/-- The form of the line. -/
def message : TwoFields → String
  | irregular => "'form>replacement'"
  | metarule => "'pattern<target'"
  | entry => "'word:type,type,...'"
  | reduction => "'from^0<to^0'"

end TwoFields

/-- What is wrong with a grammar text. -/
inductive FormatFault where
  | badCount (found : String)
  | countMismatch (declared : Nat) (what : Counted) (found : Nat)
  | missingCount
  | manySections
  | emptyStandalone
  | valueBeforeCategory
  | rowBeforeTable
  | badTag (found : String)
  | ruleBeforeTag
  | notTwoFields (line : TwoFields)
  | emptyType
  | badAtom (cause : MalformedAtom)
  | badMetarule (cause : InvalidMetarule)
deriving DecidableEq, Repr

/-- The fault in words. -/
def FormatFault.message : FormatFault → String
  | badCount found => "expected a count, found '" ++ found ++ "'"
  | countMismatch declared what found =>
    "declared " ++ Numeral.natText declared ++ " " ++ what.message ++ ", found " ++
      Numeral.natText found
  | missingCount => "missing atom type count"
  | manySections => "more than six sections"
  | emptyStandalone => "empty standalone type name"
  | valueBeforeCategory => "marker value before any category"
  | rowBeforeTable => "substitution before any table header"
  | badTag found => "invalid metarule tag '" ++ found ++ "'"
  | ruleBeforeTag => "metarule before any 'tag:' line"
  | notTwoFields line => "expected " ++ line.message
  | emptyType => "empty type in entry"
  | badAtom cause => cause.message
  | badMetarule cause => cause.message

end PregroupGrammar
