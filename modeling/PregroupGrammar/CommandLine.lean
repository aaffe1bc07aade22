import PregroupGrammar.Codec.Settings
import PregroupGrammar.Corpus.Basic
import PregroupGrammar.Grammar.English
import PregroupGrammar.Grammar.File

/-!
# The command line

The program takes a grammar file and a corpus file, or neither, and settings with the option
`--config`. It prints the grammar, the traces of the first two sentences and the report on the
corpus. The only effect it needs is reading a file, which is a parameter here.
-/

namespace PregroupGrammar.CommandLine

/-- The arguments: the grammar and corpus files, if given, and the settings file, if given. -/
structure Arguments where
  files : Option (String × String)
  settings : Option String
deriving DecidableEq, Repr

/-- Whether an argument has the form of an option. -/
def isOption (arg : String) : Bool :=
  arg.toList.head? = some '-' && arg != "-"

/-- The arguments read so far: the files, last first, and the settings file. -/
structure Reading where
  files : List String
  settings : Option String

/-- The settings file is named, for the first time and by a text that is not empty. -/
def Reading.name? (reading : Reading) (path : String) : Option Reading :=
  if reading.settings.isSome || path.isEmpty then none
  else some { reading with settings := some path }

/-- A file is named, by a text that is not empty. -/
def Reading.file? (reading : Reading) (path : String) : Option Reading :=
  if path.isEmpty then none else some { reading with files := path :: reading.files }

/-- The value of an argument `--config=value`. -/
def attached? (arg : String) : Option String :=
  let option := "--config=".toList
  if option.isPrefixOf arg.toList then some (String.ofList (arg.toList.drop option.length))
  else none

/-- Reads arguments. After `--` all of them name files. -/
def readArguments? (reading : Reading) : List String → Option Reading
  | [] => some reading
  | "--" :: args => args.foldlM Reading.file? reading
  | ["--config"] => none
  | "--config" :: path :: args =>
    if isOption path then none
    else (reading.name? path).bind fun reading => readArguments? reading args
  | arg :: args =>
    match attached? arg with
    | some path => (reading.name? path).bind fun reading => readArguments? reading args
    | none =>
      if isOption arg then none
      else (reading.file? arg).bind fun reading => readArguments? reading args

/-- The arguments that a command line gives, if it is well formed. -/
def Arguments.ofList? (args : List String) : Option Arguments := do
  let reading ← readArguments? ⟨[], none⟩ args
  match reading.files with
  | [] => return ⟨none, reading.settings⟩
  | [corpus, grammar] => return ⟨some (grammar, corpus), reading.settings⟩
  | _ => none

/-- What a run of the program leaves behind. -/
structure Output where
  stdout : String := ""
  stderr : String := ""
  exitCode : UInt8 := 0
deriving DecidableEq, Repr

/-- Computations that print, and that may end early with an error. -/
abbrev Session := ExceptT Error (StateM String)

/-- Prints a text. -/
def print (text : String) : Session Unit :=
  modify (· ++ text)

/-- Prints a heading with a line below it. -/
def heading (title : String) : Session Unit :=
  print (title ++ "\n" ++ String.ofList (List.replicate title.length '-') ++ "\n\n")

/-- Prints what becomes of one line of the corpus. -/
def showSentence (p : Parser) (line : List Char) : Session Unit := do
  match ← p.parseLine 0 line with
  | none => return
  | some report =>
    match report.outcome? with
    | some outcome => print (outcome.trace ++ "\n")
    | none => print (String.ofList line ++ ": not parsed\n\n")

/-- The line that says whether two runs report the same. -/
def agreement (concurrent sequential : CorpusReport) : String :=
  "Concurrent run agrees with sequential run: " ++
    (if concurrent = sequential then "true" else "false") ++ "\n"

/-- Prints the grammar, the first two sentences and the report on the corpus. -/
def session (p : Parser) (corpus : String) : Session Unit := do
  heading "1. The Grammar"
  print (p.grammar.text ++ "\n")
  heading "2. Single Sentences"
  let lines := (Text.lines corpus.toList).filter fun line => !(Text.trim line).isEmpty
  (lines.take 2).forM (showSentence p)
  heading "3. The Corpus"
  let report ← p.parseCorpus corpus
  print ((← report.text) ++ "\n")
  let concurrent ← p.parseCorpusConcurrently List.range corpus
  print (agreement concurrent report)

/-- How the program is called. -/
def usage : String :=
  "usage: [GRAMMAR CORPUS] [--config PATH]\n"

/-- An error as it is shown to the user. -/
def complaint (e : Error) : String :=
  "error: " ++ e.message ++ "\n"

section Files

variable {m : Type → Type} [Monad m] (read : String → m (Except String ByteArray))

/-- The text of a file. -/
def readText (path : String) : ExceptT Error m String := do
  InputFile.text path (← read path)

/-- The settings, the grammar and the corpus that the arguments name, read in this order. The usual
grammar is built with its own settings. -/
def load (args : Arguments) : ExceptT Error m (Parser × String) := do
  let settings ←
    match args.settings with
    | none => pure {}
    | some path => Settings.ofText (← readText read path)
  match args.files with
  | none => return (⟨← Grammar.english, settings.parser⟩, Grammar.demoCorpus)
  | some (grammarPath, corpusPath) =>
    let grammar ← Grammar.ofFile settings.grammar grammarPath (← read grammarPath)
    return (⟨grammar, settings.parser⟩, ← readText read corpusPath)

/-- Runs the program. Arguments that are not well formed give the exit code 2 and errors the exit
code 1. -/
def run (args : List String) : m Output :=
  match Arguments.ofList? args with
  | none => return { stderr := usage, exitCode := 2 }
  | some args => do
    match ← (load read args).run with
    | .error e => return { stderr := complaint e, exitCode := 1 }
    | .ok (parser, corpus) =>
      match (session parser corpus).run.run "" with
      | (.ok _, stdout) => return { stdout }
      | (.error e, stdout) => return { stdout, stderr := complaint e, exitCode := 1 }

end Files

end PregroupGrammar.CommandLine
