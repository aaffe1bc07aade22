import PregroupGrammar.Derivation.Basic

/-!
# Outcomes of a parse

What a parse reports: the accepted path with its derivation and the repair it took, if any, or that
no path was accepted.
-/

namespace PregroupGrammar

/-- A repair: two atoms that count as being of a type were replaced by dummy atoms. -/
structure Repair where
  atomType : String
  first : Nat
  second : Nat
deriving DecidableEq, Repr

/-- An accepted path. With a repair, the path is the repaired one. -/
structure Acceptance where
  pathIndex : Nat
  path : Path
  links : List Link
  residual : Atom
  nestingDepth : Nat
  repair : Option Repair
deriving DecidableEq, Repr

/-- The acceptance of a path by its derivation, if the derivation is grammatical. -/
def Derivation.accept? (d : Derivation) (pathIndex : Nat) (path : Path) (repair : Option Repair) :
    Option Acceptance :=
  if d.grammatical then
    d.residual.map fun residual =>
      { pathIndex, path, residual, repair
        links := d.links
        nestingDepth := nestingDepth d.links d.atomCount }
  else none

/-- The outcome of parsing one sentence. -/
structure Outcome where
  sentence : List String
  pathCount : Nat
  acceptance : Option Acceptance
deriving DecidableEq, Repr

namespace Outcome

/-- Whether a path was accepted. -/
def isGrammatical (outcome : Outcome) : Bool :=
  outcome.acceptance.isSome

/-- Whether a path was accepted after a repair only. -/
def wasRepaired (outcome : Outcome) : Bool :=
  outcome.acceptance.any (·.repair.isSome)

/-- The nesting depth of the accepted path. -/
def nestingDepth? (outcome : Outcome) : Option Nat :=
  outcome.acceptance.map Acceptance.nestingDepth

/-- The links of the accepted path. -/
def links (outcome : Outcome) : List Link :=
  (outcome.acceptance.map Acceptance.links).getD []

/-- The last line of a trace of an accepted path. -/
def verdict : Option Repair → String
  | none => "Result: GRAMMATICAL (first try)\n"
  | some repair =>
    "Result: GRAMMATICAL (second try, " ++ repair.atomType ++ " at " ++
      Numeral.natText repair.first ++ " and " ++ Numeral.natText repair.second ++ " replaced)\n"

/-- A detailed account of a parse. -/
def trace (outcome : Outcome) : String :=
  "=== Parse Trace ===\n\n" ++
  "Sentence: " ++ Text.joinWith " " outcome.sentence ++ "\n" ++
  "Paths: " ++ Numeral.natText outcome.pathCount ++ "\n\n" ++
  match outcome.acceptance with
  | none => "Result: NO SOLUTION\n"
  | some a =>
    "Accepted path " ++ Numeral.natText a.pathIndex ++ ":\n" ++
    String.join ((outcome.sentence.zip a.path).map fun (word, type) =>
      "  " ++ word ++ " : " ++ type.text ++ "\n") ++
    "\nLinks: " ++ Text.joinWith " " (a.links.map Link.text) ++ "\n" ++
    "Residual: " ++ a.residual.text ++ "\n" ++
    "Nesting depth: " ++ Numeral.natText a.nestingDepth ++ "\n" ++
    verdict a.repair

end Outcome

end PregroupGrammar
