import PregroupGrammar.Atom.Basic
import PregroupGrammar.Atom.Notation
import PregroupGrammar.Codec.Grammar
import PregroupGrammar.Codec.Metarule
import PregroupGrammar.Codec.Outcome
import PregroupGrammar.Codec.Settings
import PregroupGrammar.Codec.WordType
import PregroupGrammar.CommandLine
import PregroupGrammar.Corpus.Basic
import PregroupGrammar.Corpus.Report
import PregroupGrammar.Derivation.Basic
import PregroupGrammar.Derivation.Link
import PregroupGrammar.Derivation.ParseContext
import PregroupGrammar.Derivation.InRange
import PregroupGrammar.Derivation.PendingStack
import PregroupGrammar.Error
import PregroupGrammar.Grammar.Basic
import PregroupGrammar.Grammar.Draft
import PregroupGrammar.Grammar.English
import PregroupGrammar.Grammar.File
import PregroupGrammar.Grammar.FormatFault
import PregroupGrammar.Grammar.Reader
import PregroupGrammar.Json.Basic
import PregroupGrammar.Json.Decode
import PregroupGrammar.Json.Reader
import PregroupGrammar.Json.Token
import PregroupGrammar.Json.Writer
import PregroupGrammar.KeyedList
import PregroupGrammar.Lexicon
import PregroupGrammar.Main
import PregroupGrammar.Metarule.Basic
import PregroupGrammar.Metarule.Expansion
import PregroupGrammar.Metarule.Match
import PregroupGrammar.Metarule.Search
import PregroupGrammar.Morphology
import PregroupGrammar.Parser.Basic
import PregroupGrammar.Parser.Outcome
import PregroupGrammar.Parser.Repair
import PregroupGrammar.PathTree
import PregroupGrammar.Proofs.AtomByAtom
import PregroupGrammar.Proofs.Cancellation
import PregroupGrammar.Proofs.CompiledTable
import PregroupGrammar.Proofs.Confluence
import PregroupGrammar.Proofs.DerivedTypes
import PregroupGrammar.Proofs.Fallible
import PregroupGrammar.Proofs.FirstRepair
import PregroupGrammar.Proofs.FirstSuccess
import PregroupGrammar.Proofs.KnownNames
import PregroupGrammar.Proofs.LoadedGrammar
import PregroupGrammar.Proofs.MachineRun
import PregroupGrammar.Proofs.MetaruleForm
import PregroupGrammar.Proofs.Paths
import PregroupGrammar.ReductionTable
import PregroupGrammar.Settings
import PregroupGrammar.Text.Blank
import PregroupGrammar.Text.CaseContext
import PregroupGrammar.Text.CaseMap
import PregroupGrammar.Text.Decimal
import PregroupGrammar.Text.Lines
import PregroupGrammar.Text.Lowercase
import PregroupGrammar.Text.Numeral
import PregroupGrammar.WordType
import PregroupGrammar.Proofs.Certificate
import PregroupGrammar.Proofs.NestedLinks
import PregroupGrammar.Proofs.Robustness
import PregroupGrammar.Proofs.ConcurrentCorpus
import PregroupGrammar.Proofs.Alignments
import PregroupGrammar.Proofs.Numerals
import PregroupGrammar.Proofs.TextPieces
import PregroupGrammar.Proofs.AtomNotation
import PregroupGrammar.Proofs.JsonText
import PregroupGrammar.Proofs.Encodings
import PregroupGrammar.Proofs.SectionGrammar
import PregroupGrammar.Proofs.ReaderState
import PregroupGrammar.Proofs.SectionLines
import PregroupGrammar.Proofs.SectionBySection
import PregroupGrammar.Proofs.CapturedRuns
import PregroupGrammar.Proofs.ExpansionRounds
import PregroupGrammar.Proofs.ExpansionModes
import PregroupGrammar.Proofs.OpenLinks
import PregroupGrammar.Proofs.RepairedPair
import PregroupGrammar.Proofs.WordBoundaries
import PregroupGrammar.Proofs.DeclaredReductions
import PregroupGrammar.Proofs.UnknownTypes
import PregroupGrammar.Proofs.PathGraph
import PregroupGrammar.Proofs.PathOrder
import PregroupGrammar.Proofs.SortedLexicon
import PregroupGrammar.Proofs.FirstDefinitions
import PregroupGrammar.Proofs.WrittenAtoms
import PregroupGrammar.Proofs.DummyRules
import PregroupGrammar.Proofs.LineByLine
import PregroupGrammar.Proofs.Layout
import PregroupGrammar.Proofs.LowerCase
import PregroupGrammar.Proofs.LookupForms
import PregroupGrammar.Proofs.AnyCase
import PregroupGrammar.Proofs.PathCount
