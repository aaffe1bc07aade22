import PregroupGrammar.Parser.Outcome
import PregroupGrammar.Text.Decimal

/-!
# Corpus reports

What became of each sentence of a corpus, the statistics over all of them, and the report as text.
The nesting depths are averaged only if their sum can be counted, that is, is below
`Numeral.countLimit`; a report whose depths add up to more has no average and no text.
-/

namespace PregroupGrammar

/-- What became of a sentence: it was parsed, or it could not be, for a reason that concerns this
sentence only. -/
inductive SentenceStatus where
  | parsed (outcome : Outcome)
  | unresolved (reason : String)
deriving DecidableEq, Repr

/-- A sentence with the number of its line, and what became of it. -/
structure SentenceReport where
  line : Nat
  words : List String
  status : SentenceStatus
deriving DecidableEq, Repr

namespace SentenceReport

/-- The outcome, if the sentence was parsed. -/
def outcome? (r : SentenceReport) : Option Outcome :=
  match r.status with
  | .parsed outcome => some outcome
  | .unresolved _ => none

/-- What became of the sentence, in words. -/
def verdict (r : SentenceReport) : String :=
  match r.status with
  | .unresolved reason => reason
  | .parsed outcome =>
    match outcome.acceptance with
    | none => "no solution"
    | some a =>
      (if a.repair.isSome then "second try" else "first try") ++ ": [" ++
        Text.joinWith ", " (a.path.map WordType.text) ++ "] " ++
        Text.joinWith " " (a.links.map Link.text) ++ " depth " ++ Numeral.natText a.nestingDepth

/-- The line of the report for this sentence. -/
def text (r : SentenceReport) : String :=
  let number := Numeral.ofNat r.line
  String.ofList (List.replicate (4 - number.length) ' ' ++ number) ++ "  " ++
    Text.joinWith " " r.words ++ "  =>  " ++ r.verdict ++ "\n"

end SentenceReport

/-- The reports on the sentences of a corpus, in order. -/
structure CorpusReport where
  sentences : List SentenceReport
deriving DecidableEq, Repr

namespace CorpusReport

/-- The number of sentences. -/
def total (r : CorpusReport) : Nat :=
  r.sentences.length

/-- The outcomes of the sentences that were parsed. -/
def outcomes (r : CorpusReport) : List Outcome :=
  r.sentences.filterMap SentenceReport.outcome?

/-- The number of accepted sentences. -/
def grammatical (r : CorpusReport) : Nat :=
  r.outcomes.countP Outcome.isGrammatical

/-- The number of sentences accepted without a repair. -/
def firstTry (r : CorpusReport) : Nat :=
  r.outcomes.countP fun o => o.isGrammatical && !o.wasRepaired

/-- The number of sentences accepted after a repair. -/
def repaired (r : CorpusReport) : Nat :=
  r.outcomes.countP Outcome.wasRepaired

/-- The number of sentences that were parsed and not accepted. -/
def unparsable (r : CorpusReport) : Nat :=
  r.outcomes.countP fun o => !o.isGrammatical

/-- The number of sentences that could not be parsed. -/
def unresolved (r : CorpusReport) : Nat :=
  r.total - r.outcomes.length

/-- The sum of the nesting depths of the accepted sentences. -/
def totalNesting (r : CorpusReport) : Nat :=
  (r.outcomes.filterMap Outcome.nestingDepth?).foldl (· + ·) 0

/-- The nesting depth of the accepted sentences, averaged over all sentences. -/
def meanNesting (r : CorpusReport) : Except Error Float :=
  if r.sentences.isEmpty then .ok 0
  else if r.totalNesting < Numeral.countLimit then
    .ok (Float.ofNat r.totalNesting / Float.ofNat r.total)
  else .error .excessiveNesting

/-- The report as text, given the average nesting depth: a line for each sentence, then the totals.
The average is written with three places. -/
def textWith (r : CorpusReport) (mean : Float) : String :=
  String.join (r.sentences.map SentenceReport.text) ++
  "\nSentences: " ++ Numeral.natText r.total ++
  "  grammatical: " ++ Numeral.natText r.grammatical ++
  " (first try " ++ Numeral.natText r.firstTry ++
  ", repaired " ++ Numeral.natText r.repaired ++
  ")  unparsable: " ++ Numeral.natText r.unparsable ++
  "  unresolved: " ++ Numeral.natText r.unresolved ++ "\n" ++
  "Average degree of nesting: " ++ Decimal.ofFloat 3 mean ++ "\n"

/-- The report as text. -/
def text (r : CorpusReport) : Except Error String :=
  r.meanNesting.map r.textWith

end CorpusReport

end PregroupGrammar
