import PregroupGrammar.Grammar.FormatFault
import PregroupGrammar.Metarule.Match
import PregroupGrammar.Settings

/-!
# Errors

Everything that can go wrong, by cause, and its wording. Two of the causes concern one sentence
only: a word that the dictionary does not know, and a sentence without words. All others are fatal.
-/

namespace PregroupGrammar

/-- The cause of a failure. -/
inductive Error where
  | unknownAtomType (name : String)
  | duplicateAtomType (name : String)
  | dummyCollision (name : String)
  | malformedAtom (cause : MalformedAtom)
  | invalidMetarule (cause : InvalidMetarule)
  | ambiguousMatch (cause : AmbiguousMatch)
  | grammarFormat (line : Nat) (fault : FormatFault)
  | unknownStandalone (name : String)
  | unknownWord (word : String)
  | emptySentence
  | unreadableFile (path : String) (reason : String)
  | invalidSettings (fault : SettingsFault)
  | lostSentence (index : Nat)
  | excessiveNesting
deriving DecidableEq, Repr

namespace Error

/-- The error in words. -/
def message : Error → String
  | unknownAtomType name => "Unknown atom type: '" ++ name ++ "'"
  | duplicateAtomType name => "Atom type '" ++ name ++ "' declared more than once"
  | dummyCollision name => "Dummy type '" ++ name ++ "' collides with a declared atom type"
  | malformedAtom cause => cause.message
  | invalidMetarule cause => cause.message
  | ambiguousMatch cause => cause.message
  | grammarFormat line fault =>
    "Grammar format error on line " ++ Numeral.natText line ++ ": " ++ fault.message
  | unknownStandalone name => "Standalone type '" ++ name ++ "' is not a declared atom type"
  | unknownWord word => "Unknown word: '" ++ word ++ "'"
  | emptySentence => "Cannot parse empty sentence"
  | unreadableFile path reason => "Cannot read '" ++ path ++ "': " ++ reason
  | invalidSettings fault => "Invalid configuration: " ++ fault.message
  | lostSentence index => "Sentence worker failed: no result for sentence " ++ Numeral.natText index
  | excessiveNesting => "Nesting depths add up to more than can be counted"

/-- Whether the error ends a whole run, and not only the sentence at hand. -/
def isFatal : Error → Bool
  | unknownWord _ | emptySentence => false
  | _ => true

end Error

end PregroupGrammar
