import PregroupGrammar.Corpus.Report
import PregroupGrammar.Parser.Basic

/-!
# Parsing a corpus

A corpus is a text with one sentence on each line; lines without words do not count. A sentence that
cannot be parsed because of its words is reported as such, and any other error ends the run.

The sentences can also be parsed concurrently, one job for each. The jobs finish in any order, and
their results are collected in the order of the sentences.
-/

namespace PregroupGrammar

namespace Text

/-- The punctuation marks that separate words. -/
def punctuation : List Char :=
  ['.', ',', ';', ':', '?', '!', '(', ')', '"', '#', '$', '%', '&', '\'']

/-- Whether a character separates words. -/
def isDelimiter (c : Char) : Bool :=
  isBlank c || punctuation.contains c

/-- The words of a line. -/
def tokenize (line : List Char) : List String :=
  (pieces isDelimiter line).map String.ofList

end Text

/-- The words of each line of a corpus that has any, with the line's number. -/
def corpusSentences (text : String) : List (Nat × List String) :=
  (Text.numberedLines text.toList).filterMap fun (number, line) =>
    let words := Text.tokenize line
    if words.isEmpty then none else some (number, words)

namespace Parser

/-- The report on one sentence. -/
def report (p : Parser) (number : Nat) (words : List String) : Except Error SentenceReport :=
  match p.parse words with
  | .ok outcome => .ok ⟨number, words, .parsed outcome⟩
  | .error e => if e.isFatal then .error e else .ok ⟨number, words, .unresolved e.message⟩

/-- The report on one line, if it has any words. -/
def parseLine (p : Parser) (number : Nat) (line : List Char) :
    Except Error (Option SentenceReport) :=
  let words := Text.tokenize line
  if words.isEmpty then .ok none else (p.report number words).map some

/-- The report on a corpus, sentence by sentence. -/
def parseCorpus (p : Parser) (text : String) : Except Error CorpusReport :=
  ((corpusSentences text).mapM fun (number, words) => p.report number words).map CorpusReport.mk

/-- The results of the jobs that have finished, in the order in which they did. A job is known by
its place among the sentences. -/
def finished (p : Parser) (sentences : List (Nat × List String)) (order : List Nat) :
    List (Nat × Except Error SentenceReport) :=
  order.filterMap fun job =>
    sentences[job]?.map fun (number, words) => (job, p.report number words)

/-- The result of a job. -/
def await (results : List (Nat × Except Error SentenceReport)) (job : Nat) :
    Except Error SentenceReport :=
  match results.lookup job with
  | some result => result
  | none => .error (.lostSentence job)

/-- The report on a corpus whose sentences are parsed concurrently. `schedule n` is the order in
which `n` jobs finish. -/
def parseCorpusConcurrently (p : Parser) (schedule : Nat → List Nat) (text : String) :
    Except Error CorpusReport :=
  let sentences := corpusSentences text
  let results := p.finished sentences (schedule sentences.length)
  ((List.range sentences.length).mapM (await results)).map CorpusReport.mk

end Parser

end PregroupGrammar
