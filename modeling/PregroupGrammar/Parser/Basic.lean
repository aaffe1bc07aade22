import PregroupGrammar.Parser.Repair
import PregroupGrammar.PathTree

/-!
# Parsing a sentence

Every word is resolved to its dictionary entry, and the paths through the types of the words are
tried in order. The first path that is grammatical is accepted; failing that, the first that a
repair makes grammatical. A parser that repairs each path as soon as it fails accepts the first path
that is grammatical or can be made so.
-/

namespace PregroupGrammar

/-- A grammar and the settings to parse with. -/
structure Parser where
  grammar : Grammar
  settings : ParserSettings := {}

namespace Parser

/-- The acceptance of a path as it is. -/
def acceptPlain (p : Parser) (pathIndex : Nat) (path : Path) :
    Except Error (Option Acceptance) :=
  (p.grammar.derive path).map fun d => d.accept? pathIndex path none

/-- The acceptance of a path after a repair. -/
def acceptRepaired (p : Parser) (pathIndex : Nat) (path : Path) :
    Except Error (Option Acceptance) :=
  p.grammar.acceptRepaired p.settings.repairThreshold pathIndex path

/-- The first of the paths that is accepted one way or, if none is, the first that is accepted
another way. -/
def search (p : Parser) (paths : List Path) : Except Error (Option Acceptance) :=
  match p.settings.repairStrategy with
  | .perPath =>
    paths.zipIdx.findSomeM? fun (path, i) => do
      match ← p.acceptPlain i path with
      | some acceptance => return some acceptance
      | none => p.acceptRepaired i path
  | .afterAllPaths => do
    match ← paths.zipIdx.findSomeM? fun (path, i) => p.acceptPlain i path with
    | some acceptance => return some acceptance
    | none => paths.zipIdx.findSomeM? fun (path, i) => p.acceptRepaired i path

/-- Parses a sentence with the given types for its words. -/
def parseCandidates (p : Parser) (sentence : List String) (candidates : List (List WordType)) :
    Except Error Outcome := do
  if candidates.isEmpty then throw .emptySentence
  let paths := enumeratePaths candidates
  let acceptance ← p.search paths
  return { sentence, pathCount := paths.length, acceptance }

/-- Parses a sentence. -/
def parse (p : Parser) (words : List String) : Except Error Outcome := do
  if words.isEmpty then throw .emptySentence
  let entries ← words.mapM p.grammar.resolve
  p.parseCandidates words (entries.map Entry.types)

end Parser

end PregroupGrammar
