import PregroupGrammar.Grammar.Draft

/-!
# Grammar text

A grammar is written in up to six sections with a line of ten stars between them:

1. the number of atom types, then one name a line, a standalone type with `#` in front;
2. nothing, or the number of marker categories, then each category's name on a line and its values
   on lines that begin with `#`;
3. suffix tables and irregular forms, each after its header;
4. metarules, `pattern<target`, each under the last line `tag:`;
5. dictionary entries, `word:type,type,...`;
6. reductions, `from<to`, between two atoms of which only the names count.

Blank lines and blanks at the ends of a line do not count. The text is read line by line. The reader
carries the draft, the section it is in, and what it has to remember from one line to the next: the
count that the section declares, how many of the things counted it has seen, the marker category
that is still open to values, the suffix table and the tag in force. A section that ends puts the
open category into the draft and clears the count; a table or a tag stays until another takes its
place.
-/

namespace PregroupGrammar

/-- The tables of the third section. -/
inductive SuffixTable where
  | verbs
  | nouns
  | adjectives
  | irregulars
deriving DecidableEq, Repr

namespace SuffixTable

/-- The text that a line with the table's header contains. -/
def header : SuffixTable → String
  | verbs => "#Verbs:"
  | nouns => "#Nouns:"
  | adjectives => "#Adjectives:"
  | irregulars => "#Irregulars:"

/-- The table whose header the line contains; the first one, if there are several. -/
def ofLine? (line : List Char) : Option SuffixTable :=
  [verbs, nouns, adjectives, irregulars].find? fun table => Text.hasPart table.header.toList line

end SuffixTable

/-- A count that a section declares, and the line on which it does. -/
structure Declared where
  count : Nat
  line : Nat
deriving DecidableEq, Repr

/-- The six sections. -/
inductive Section where
  | atomTypes
  | markers
  | substitutions
  | metarules
  | entries
  | reductions
deriving DecidableEq, Repr

namespace Section

/-- The section after this one. -/
def next? : Section → Option Section
  | atomTypes => some markers
  | markers => some substitutions
  | substitutions => some metarules
  | metarules => some entries
  | entries => some reductions
  | reductions => none

/-- What the section declares the count of. -/
def counted? : Section → Option Counted
  | atomTypes => some .atomTypes
  | markers => some .markerCategories
  | _ => none

end Section

/-- The line between two sections. -/
def sectionBreak : List Char :=
  List.replicate 10 '*'

/-- The two fields of a line, neither of them blank. -/
def twoFields (form : TwoFields) (line : List Char) :
    Except FormatFault (List Char × List Char) :=
  match (line.splitOn form.separator).map Text.trim with
  | [left, right] =>
    if left.isEmpty || right.isEmpty then .error (.notTwoFields form) else .ok (left, right)
  | _ => .error (.notTwoFields form)

/-- The type that a part of a line spells. -/
def readType (cs : List Char) : Except FormatFault WordType :=
  (WordType.ofText (String.ofList cs)).mapError .badAtom

/-- The atom that a part of a line spells. -/
def readAtom (cs : List Char) : Except FormatFault Atom :=
  (Atom.ofText (String.ofList cs)).mapError .badAtom

namespace Draft

/-- A line of the first section after the count. -/
def atomTypeLine (d : Draft) (line : List Char) : Except FormatFault Draft :=
  match line with
  | '#' :: name =>
    if (Text.trim name).isEmpty then .error .emptyStandalone
    else .ok (d.standaloneType (String.ofList (Text.trim name)))
  | _ => .ok (d.atomType (String.ofList line))

/-- A row of a suffix table or of the table of irregular forms. -/
def substitutionLine (d : Draft) (table : SuffixTable) (line : List Char) :
    Except FormatFault Draft :=
  let m := d.morphology
  let row := String.ofList line
  match table with
  | .verbs => .ok { d with morphology := { m with verbalSuffixes := m.verbalSuffixes ++ [row] } }
  | .nouns => .ok { d with morphology := { m with nounSuffixes := m.nounSuffixes ++ [row] } }
  | .adjectives =>
    .ok { d with morphology := { m with adjectiveSuffixes := m.adjectiveSuffixes ++ [row] } }
  | .irregulars => do
    let (form, replacement) ← twoFields .irregular line
    let pair := (String.ofList form, String.ofList replacement)
    return { d with morphology := { m with irregulars := m.irregulars ++ [pair] } }

/-- A line with the tag of the metarules after it, without its colon. -/
def tagLine (tag : List Char) : Except FormatFault Int64 :=
  match Numeral.int64? (Text.trim tag) with
  | some n => .ok n
  | none => .error (.badTag (String.ofList tag))

/-- A line with a metarule. -/
def metaruleLine (d : Draft) (tag : Int64) (line : List Char) : Except FormatFault Draft := do
  let (pattern, target) ← twoFields .metarule line
  let pattern ← readType pattern
  let target ← readType target
  let rule ← (Metarule.make tag pattern target).mapError .badMetarule
  return d.metarule rule

/-- One of the types of an entry. -/
def entryType (cs : List Char) : Except FormatFault WordType :=
  if (Text.trim cs).isEmpty then .error .emptyType else readType cs

/-- A line with a dictionary entry. -/
def entryLine (d : Draft) (line : List Char) : Except FormatFault Draft := do
  let (word, types) ← twoFields .entry line
  let types ← (types.splitOn ',').mapM entryType
  return d.entry (String.ofList word) types

/-- A line with a reduction. -/
def reductionLine (d : Draft) (line : List Char) : Except FormatFault Draft := do
  let (source, target) ← twoFields .reduction line
  let source ← readAtom source
  let target ← readAtom target
  return d.reduction source.name target.name

end Draft

/-- The reader of a grammar text. -/
structure Reader where
  draft : Draft
  part : Section
  declared : Option Declared
  seen : Nat
  openCategory : Option MarkerCategory
  suffixTable : Option SuffixTable
  metaruleTag : Option Int64
deriving DecidableEq

namespace Reader

/-- The reader before the first line. -/
def start (settings : GrammarSettings) : Reader where
  draft := { settings }
  part := .atomTypes
  declared := none
  seen := 0
  openCategory := none
  suffixTable := none
  metaruleTag := none

/-- Puts the open category, if there is one, into the draft. -/
def flush (r : Reader) : Reader :=
  match r.openCategory with
  | some category =>
    { r with draft := r.draft.markerCategory category.name category.values, openCategory := none }
  | none => r

/-- A line with a count. -/
def countLine (r : Reader) (number : Nat) (line : List Char) : Except FormatFault Reader :=
  match Numeral.count? line with
  | some count => .ok { r with declared := some ⟨count, number⟩ }
  | none => .error (.badCount (String.ofList line))

/-- A line of the first section. -/
def atomTypeLine (r : Reader) (number : Nat) (line : List Char) : Except FormatFault Reader :=
  match r.declared with
  | none => r.countLine number line
  | some _ => do return { r with draft := ← r.draft.atomTypeLine line, seen := r.seen + 1 }

/-- A line of the second section. A value goes to the open category, and the name of another
category closes it. -/
def markerLine (r : Reader) (number : Nat) (line : List Char) : Except FormatFault Reader :=
  match r.declared with
  | none => r.countLine number line
  | some _ =>
    match line with
    | '#' :: value =>
      match r.openCategory with
      | some category =>
        let values := category.values ++ [String.ofList (Text.trim value)]
        .ok { r with openCategory := some { category with values } }
      | none => .error .valueBeforeCategory
    | name =>
      .ok { r.flush with openCategory := some ⟨String.ofList name, []⟩, seen := r.seen + 1 }

/-- A line of the third section. -/
def substitutionLine (r : Reader) (line : List Char) : Except FormatFault Reader :=
  match SuffixTable.ofLine? line with
  | some table => .ok { r with suffixTable := some table }
  | none =>
    match r.suffixTable with
    | some table => do return { r with draft := ← r.draft.substitutionLine table line }
    | none => .error .rowBeforeTable

/-- A line of the fourth section. -/
def metaruleLine (r : Reader) (line : List Char) : Except FormatFault Reader :=
  match Text.beforeEnding? [':'] line with
  | some tag => do return { r with metaruleTag := some (← Draft.tagLine tag) }
  | none =>
    match r.metaruleTag with
    | some tag => do return { r with draft := ← r.draft.metaruleLine tag line }
    | none => .error .ruleBeforeTag

/-- One line of the section, not blank and not a section break. -/
def readLine (r : Reader) (number : Nat) (line : List Char) : Except FormatFault Reader :=
  match r.part with
  | .atomTypes => r.atomTypeLine number line
  | .markers => r.markerLine number line
  | .substitutions => r.substitutionLine line
  | .metarules => r.metaruleLine line
  | .entries => do return { r with draft := ← r.draft.entryLine line }
  | .reductions => do return { r with draft := ← r.draft.reductionLine line }

/-- Fails if the section has seen another number of things than it declares. Only the first section
must declare a number. -/
def checkCount (r : Reader) (number : Nat) : Except Error Unit :=
  match r.part.counted?, r.declared with
  | some what, some declared =>
    if declared.count = r.seen then .ok ()
    else .error (.grammarFormat declared.line (.countMismatch declared.count what r.seen))
  | some .atomTypes, none => .error (.grammarFormat number .missingCount)
  | _, _ => .ok ()

/-- The end of a section, which is noticed on line `number`. -/
def finishSection (r : Reader) (number : Nat) : Except Error Reader := do
  let r := r.flush
  r.checkCount number
  return { r with declared := none, seen := 0 }

/-- One numbered line of the text. -/
def step (r : Reader) (line : Nat × List Char) : Except Error Reader :=
  let (number, content) := (line.1, Text.trim line.2)
  if content.isEmpty then .ok r
  else if content = sectionBreak then do
    let r ← r.finishSection number
    match r.part.next? with
    | some part => return { r with part }
    | none => .error (.grammarFormat number .manySections)
  else (r.readLine number content).mapError (.grammarFormat number)

end Reader

namespace Draft

/-- The draft that a text describes. -/
def ofText (settings : GrammarSettings) (text : String) : Except Error Draft := do
  let lines := Text.numberedLines text.toList
  let r ← lines.foldlM Reader.step (.start settings)
  return (← r.finishSection lines.length).draft

end Draft

namespace Grammar

/-- The grammar that a text describes. -/
def ofText (settings : GrammarSettings) (text : String) : Except Error Grammar := do
  (← Draft.ofText settings text).build

end Grammar

end PregroupGrammar
