import PregroupGrammar.Metarule.Expansion

/-!
# Settings

What a user can choose: the name of the dummy type and the number of metarule rounds when a grammar
is built, and when and how soon a sentence is repaired when it is parsed.
-/

namespace PregroupGrammar

/-- The settings that are fixed when a grammar is built. -/
structure GrammarSettings where
  /-- The name of the type that replaces atoms in a repair. -/
  dummyType : String := "x"
  /-- How long the metarules are applied to the types of a word. -/
  iteration : Iteration := .standard
deriving DecidableEq, Repr

/-- When a sentence is repaired: after all its paths have failed as they are, or each path as soon
as it has failed. -/
inductive RepairStrategy where
  | afterAllPaths
  | perPath
deriving DecidableEq, Repr

/-- The settings of a parser. -/
structure ParserSettings where
  /-- How many atoms of one type make a path worth a repair. -/
  repairThreshold : Nat := 4
  /-- When the repair takes place. -/
  repairStrategy : RepairStrategy := .afterAllPaths
deriving DecidableEq, Repr

/-- All settings. -/
structure Settings where
  grammar : GrammarSettings := {}
  parser : ParserSettings := {}
deriving DecidableEq, Repr

/-- What is wrong with settings. -/
inductive SettingsFault where
  | undecodable
  | badDummyType
  | lowThreshold
  | noRounds
deriving DecidableEq, Repr

/-- The fault in words. -/
def SettingsFault.message : SettingsFault → String
  | undecodable => "not a settings object"
  | badDummyType => "dummy_type must be a plain, non-empty type name"
  | lowThreshold => "repair_threshold must be at least 2"
  | noRounds => "fixed_point.max_rounds must be positive"

/-- Whether a text is a name that an atom of the notation could have, and not that of a generic. -/
def isPlainName (name : String) : Bool :=
  let cs := name.toList
  !cs.isEmpty && cs.all fun c => !(c == '*' || c == '_' || c == '^' || Text.isBlank c)

namespace Settings

/-- What is wrong with the settings, if anything is. -/
def fault? (settings : Settings) : Option SettingsFault :=
  if !isPlainName settings.grammar.dummyType then some .badDummyType
  else if settings.parser.repairThreshold < 2 then some .lowThreshold
  else if settings.grammar.iteration = .fixedPoint 0 then some .noRounds
  else none

end Settings

end PregroupGrammar
