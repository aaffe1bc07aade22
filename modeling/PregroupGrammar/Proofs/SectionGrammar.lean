import Mathlib.Data.List.Infix
import PregroupGrammar.Grammar.Reader
import PregroupGrammar.Proofs.Fallible

/-!
# The sections of a grammar text, each on its own

A second account of grammar texts, which carries nothing from one line to the next. The lines that
count are cut at the section breaks, each of the six blocks has a grammar of its own, and the draft
holds what the blocks hold.

Which blocks are accepted is stated outright (`Accepted`): which lines there are, in which order,
what each of them spells, and that a declared count is the number of things that follow. Where a
block is not accepted, a reader for that block alone tells the first fault in it (`outcomes`).

In the sections with marker categories, suffix tables and metarules, a line may open a group that
the lines after it belong to (`Grouped`). The readers cut such a block into its groups first
(`headed`), and a line in front of the first group has no place.
-/

namespace PregroupGrammar.GrammarText

open Fallible

/-- A line with its number. -/
abbrev Line := Nat × List Char

/-- The lines of a text that are not blank, trimmed and with their numbers from 1. -/
def contentLines (text : String) : List Line :=
  (((text.toList.splitOn '\n').zipIdx 1).map fun line => (line.2, Text.trim line.1)).filter
    (!·.2.isEmpty)

/-- The number of the last line. A line feed at the end of the text begins no line. -/
def lastNumber (text : String) : Nat :=
  text.toList.count '\n' + if text.toList.getLast?.all (· = '\n') then 0 else 1

/-- Whether a section ends with the line. -/
def isBreak (line : Line) : Bool :=
  line.2 == "**********".toList

/-- What the line spells, with the number of the line on a fault. -/
def readAs {α : Type} (spelled : List Char → Except FormatFault α) (line : Line) : Except Error α :=
  (spelled line.2).mapError (.grammarFormat line.1)

/-- The line spells this. -/
def Spells {α : Type} (spelled : List Char → Except FormatFault α) (line : Line) (a : α) : Prop :=
  spelled line.2 = .ok a

section Lines

/-- A count. -/
def countOf (line : List Char) : Except FormatFault Nat :=
  match Numeral.count? line with
  | some count => .ok count
  | none => .error (.badCount (String.ofList line))

/-- The name of an atom type, and whether it is standalone. -/
def nameOf : List Char → Except FormatFault (String × Bool)
  | '#' :: name =>
    if (Text.trim name).isEmpty then .error .emptyStandalone
    else .ok (String.ofList (Text.trim name), true)
  | name => .ok (String.ofList name, false)

/-- The name of a marker category, if the line is not a value of one. -/
def categoryOf? (line : Line) : Option String :=
  if line.2.head? = some '#' then none else some (String.ofList line.2)

/-- A value of a marker category. -/
def valueOf (line : Line) : String :=
  String.ofList (Text.trim line.2.tail)

/-- The fields on both sides of the only separator in a line, trimmed. Neither of them is empty. -/
def fieldsOf (separator : Char) (form : TwoFields) (line : List Char) :
    Except FormatFault (List Char × List Char) :=
  let left := Text.trim (line.takeWhile (· ≠ separator))
  let right := Text.trim (line.dropWhile (· ≠ separator)).tail
  if line.count separator = 1 ∧ left ≠ [] ∧ right ≠ [] then .ok (left, right)
  else .error (.notTwoFields form)

/-- The type that a part of a line spells. -/
def typeOf (cs : List Char) : Except FormatFault WordType :=
  (WordType.ofText (String.ofList cs)).mapError .badAtom

/-- The atom that a part of a line spells. -/
def atomOf (cs : List Char) : Except FormatFault Atom :=
  (Atom.ofText (String.ofList cs)).mapError .badAtom

/-- The table that the line opens, if it contains a header. -/
def tableOf? (line : Line) : Option SuffixTable :=
  if "#Verbs:".toList <:+: line.2 then some .verbs
  else if "#Nouns:".toList <:+: line.2 then some .nouns
  else if "#Adjectives:".toList <:+: line.2 then some .adjectives
  else if "#Irregulars:".toList <:+: line.2 then some .irregulars
  else none

/-- A row of a suffix table, or of the table of irregular forms, as tables with that row only. -/
def rowOf (table : SuffixTable) (line : List Char) : Except FormatFault Morphology :=
  match table with
  | .verbs => .ok { verbalSuffixes := [String.ofList line] }
  | .nouns => .ok { nounSuffixes := [String.ofList line] }
  | .adjectives => .ok { adjectiveSuffixes := [String.ofList line] }
  | .irregulars => do
    let (form, replacement) ← fieldsOf '>' .irregular line
    return { irregulars := [(String.ofList form, String.ofList replacement)] }

/-- The numbered text in front of the colon of a tag, if the line is a tag. -/
def tagOf? (line : Line) : Option Line :=
  if line.2.getLast? = some ':' then some (line.1, line.2.dropLast) else none

/-- The number that a tag is. -/
def numberOf (tag : List Char) : Except FormatFault Int64 :=
  match Numeral.int64? (Text.trim tag) with
  | some number => .ok number
  | none => .error (.badTag (String.ofList tag))

/-- A metarule under a tag. -/
def ruleOf (tag : Int64) (line : List Char) : Except FormatFault Metarule := do
  let (pattern, target) ← fieldsOf '<' .metarule line
  let pattern ← typeOf pattern
  let target ← typeOf target
  (Metarule.make tag pattern target).mapError .badMetarule

/-- One of the types of a dictionary entry. -/
def entryTypeOf (cs : List Char) : Except FormatFault WordType :=
  if cs.all Text.isBlank then .error .emptyType else typeOf cs

/-- A dictionary entry. -/
def entryOf (line : List Char) : Except FormatFault Entry := do
  let (word, types) ← fieldsOf ':' .entry line
  let types ← (types.splitOn ',').mapM entryTypeOf
  return ⟨String.ofList word, types⟩

/-- The two type names of a reduction. -/
def reductionOf (line : List Char) : Except FormatFault (String × String) := do
  let (source, target) ← fieldsOf '<' .reduction line
  let source ← atomOf source
  let target ← atomOf target
  return (source.name, target.name)

end Lines

section Groups

variable {κ γ : Type}

/-- The lines are groups one after the other, each opened by its head and holding the lines up to
the next head. -/
inductive Grouped (head? : Line → Option κ) (Holds : κ → List Line → γ → Prop) :
    List Line → List γ → Prop
  | done : Grouped head? Holds [] []
  | group {line : Line} {head : κ} {rows rest : List Line} {group : γ} {groups : List γ} :
    head? line = some head → (∀ row ∈ rows, head? row = none) → Holds head rows group →
      Grouped head? Holds rest groups →
      Grouped head? Holds (line :: (rows ++ rest)) (group :: groups)

/-- The lines in front of the first head, and each head with the lines up to the next one. -/
def headed (head? : Line → Option κ) : List Line → List Line × List (κ × List Line)
  | [] => ([], [])
  | line :: lines =>
    let (rows, groups) := headed head? lines
    match head? line with
    | some head => ([], (head, rows) :: groups)
    | none => (line :: rows, groups)

/-- The groups of a block. A line in front of the first head is a fault. -/
def readGroups (head? : Line → Option κ) (astray : FormatFault)
    (readGroup : κ → List Line → Except Error γ) (block : List Line) : Except Error (List γ) :=
  match headed head? block with
  | (line :: _, _) => .error (.grammarFormat line.1 astray)
  | ([], groups) => groups.mapM fun (head, rows) => readGroup head rows

variable {head? : Line → Option κ} {Holds : κ → List Line → γ → Prop}

theorem headed_cons_none {line : Line} {lines : List Line} (h : head? line = none) :
    headed head? (line :: lines) = (line :: (headed head? lines).1, (headed head? lines).2) := by
  simp only [headed, h]

theorem headed_cons_some {line : Line} {lines : List Line} {head : κ} (h : head? line = some head) :
    headed head? (line :: lines) =
      ([], (head, (headed head? lines).1) :: (headed head? lines).2) := by
  simp only [headed, h]

theorem headed_append {rows : List Line} (hrows : ∀ row ∈ rows, head? row = none)
    (rest : List Line) :
    headed head? (rows ++ rest) = (rows ++ (headed head? rest).1, (headed head? rest).2) := by
  induction rows with
  | nil => rfl
  | cons row rows ih =>
    obtain ⟨hrow, hrows⟩ := List.forall_mem_cons.1 hrows
    rw [List.cons_append, headed_cons_none hrow, ih hrows, List.cons_append]

theorem Grouped.headed {block : List Line} {groups : List γ}
    (h : Grouped head? Holds block groups) :
    (GrammarText.headed head? block).1 = [] ∧
      List.Forall₂ (fun headed group => Holds headed.1 headed.2 group)
        (GrammarText.headed head? block).2 groups := by
  induction h with
  | done => exact ⟨rfl, .nil⟩
  | group hline hrows hholds _ ih =>
    rw [headed_cons_some hline, headed_append hrows, ih.1, List.append_nil]
    exact ⟨rfl, .cons hholds ih.2⟩

/-- Every block is rows without a head and then groups. -/
theorem exists_grouped : ∀ (block : List Line) {groups : List γ},
    List.Forall₂ (fun headed group => Holds headed.1 headed.2 group) (headed head? block).2 groups →
      ∃ rest, block = (headed head? block).1 ++ rest ∧
        (∀ row ∈ (headed head? block).1, head? row = none) ∧ Grouped head? Holds rest groups
  | [], groups, h => by
    obtain rfl := List.forall₂_nil_left_iff.1 h
    exact ⟨[], rfl, by simp [headed], .done⟩
  | line :: lines, groups, h => by
    rcases hline : head? line with _ | head
    · rw [headed_cons_none hline] at h ⊢
      obtain ⟨rest, hsplit, hrows, hrest⟩ := exists_grouped lines h
      exact ⟨rest, congrArg (line :: ·) hsplit, List.forall_mem_cons.2 ⟨hline, hrows⟩, hrest⟩
    · rw [headed_cons_some hline] at h ⊢
      obtain ⟨group, groups', hgroup, hgroups, rfl⟩ := List.forall₂_cons_left_iff.1 h
      obtain ⟨rest, hsplit, hrows, hrest⟩ := exists_grouped lines hgroups
      refine ⟨line :: lines, rfl, by simp, ?_⟩
      have hwhole := hrest.group hline hrows hgroup
      rwa [← hsplit] at hwhole

theorem readGroups_eq_ok {astray : FormatFault} {readGroup : κ → List Line → Except Error γ}
    (h : ∀ head rows group, readGroup head rows = .ok group ↔ Holds head rows group)
    {block : List Line} {groups : List γ} :
    readGroups head? astray readGroup block = .ok groups ↔ Grouped head? Holds block groups := by
  have hmap : (headed head? block).2.mapM (fun (head, rows) => readGroup head rows) = .ok groups ↔
      List.Forall₂ (fun headed group => Holds headed.1 headed.2 group)
        (headed head? block).2 groups := by
    rw [mapM_eq_ok]
    simp only [h]
  constructor
  · intro hread
    unfold readGroups at hread
    split at hread
    · cases hread
    · rename_i hheaded
      have hgroups := hmap.1 (by rw [hheaded]; exact hread)
      obtain ⟨rest, hsplit, -, hrest⟩ := exists_grouped block hgroups
      rw [hheaded, List.nil_append] at hsplit
      exact hsplit ▸ hrest
  · intro hgrouped
    obtain ⟨hnone, hgroups⟩ := hgrouped.headed
    have hheaded : headed head? block = ([], (headed head? block).2) := Prod.ext hnone rfl
    rw [readGroups, hheaded]
    exact hmap.2 hgroups

end Groups

section Blocks

/-- The first section: a count and as many names. The count is missed where the section stops. -/
def readNames (stop : Nat) : List Line → Except Error (List (String × Bool))
  | [] => .error (.grammarFormat stop .missingCount)
  | first :: lines => do
    let count ← readAs countOf first
    let names ← lines.mapM (readAs nameOf)
    if count = names.length then return names
    else .error (.grammarFormat first.1 (.countMismatch count .atomTypes names.length))

/-- The second section: nothing, or a count and as many categories, each with its values. -/
def readMarkers : List Line → Except Error (List MarkerCategory)
  | [] => .ok []
  | first :: lines => do
    let count ← readAs countOf first
    let categories ← readGroups categoryOf? .valueBeforeCategory
      (fun name values => .ok ⟨name, values.map valueOf⟩) lines
    if count = categories.length then return categories
    else .error (.grammarFormat first.1 (.countMismatch count .markerCategories categories.length))

/-- The third section: the rows of each table after its header. -/
def readTables (block : List Line) : Except Error (List (List Morphology)) :=
  readGroups tableOf? .rowBeforeTable (fun table rows => rows.mapM (readAs (rowOf table))) block

/-- The fourth section: the metarules under each tag. -/
def readRules (block : List Line) : Except Error (List (List Metarule)) :=
  readGroups tagOf? .ruleBeforeTag
    (fun line rules => do
      let tag ← readAs numberOf line
      rules.mapM (readAs (ruleOf tag)))
    block

end Blocks

/-- The tables with the rows of each of the given tables, in order. -/
def joinTables (tables : List Morphology) : Morphology where
  verbalSuffixes := tables.flatMap Morphology.verbalSuffixes
  nounSuffixes := tables.flatMap Morphology.nounSuffixes
  adjectiveSuffixes := tables.flatMap Morphology.adjectiveSuffixes
  irregulars := tables.flatMap Morphology.irregulars

/-- What the six sections of a text hold, each in the order of its lines. -/
structure Contents where
  names : List (String × Bool)
  markers : List MarkerCategory
  tables : List (List Morphology)
  rules : List (List Metarule)
  entries : List Entry
  reductions : List (String × String)

/-- The draft with these contents. A word has the first of its entries. -/
def Contents.draft (c : Contents) (settings : GrammarSettings) : Draft where
  settings := settings
  inventory := c.names.map Prod.fst
  standalones := (c.names.filter Prod.snd).map Prod.fst
  markers := c.markers
  morphology := joinTables c.tables.flatten
  metarules := c.rules.flatten
  entries := c.entries.eraseDupsBy (·.word == ·.word)
  reductions := c.reductions

/-- The blocks of a text between its section breaks. -/
def blocks (text : String) : List (List Line) :=
  (contentLines text).splitOnP isBreak

/-- The section breaks of a text. -/
def breaks (text : String) : List Line :=
  (contentLines text).filter isBreak

/-- The block of the section with the number `k`, from 0. A section that the text does not reach is
empty. -/
def block (text : String) (k : Nat) : List Line :=
  (blocks text).getD k []

/-- The line on which the first section stops: the first break, or the last line of the text. -/
def firstStop (text : String) : Nat :=
  ((breaks text).head?.map Prod.fst).getD (lastNumber text)

/-- Fails if there is a break after the last section. -/
def checkLast : Option Line → Except Error Unit
  | none => .ok ()
  | some line => .error (.grammarFormat line.1 .manySections)

/-- The contents of a text, section by section. -/
def readSections (text : String) : Except Error Contents := do
  let names ← readNames (firstStop text) (block text 0)
  let markers ← readMarkers (block text 1)
  let tables ← readTables (block text 2)
  let rules ← readRules (block text 3)
  let entries ← (block text 4).mapM (readAs entryOf)
  let reductions ← (block text 5).mapM (readAs reductionOf)
  checkLast (breaks text)[5]?
  return { names, markers, tables, rules, entries, reductions }

/-- The category has this name and the values on the lines. -/
def IsCategory (name : String) (values : List Line) (category : MarkerCategory) : Prop :=
  category = ⟨name, values.map valueOf⟩

/-- The lines spell the metarules under the tag on the line. -/
def RulesUnder (line : Line) (lines : List Line) (rules : List Metarule) : Prop :=
  ∃ tag, Spells numberOf line tag ∧ List.Forall₂ (Spells (ruleOf tag)) lines rules

/-- Each of the six blocks is accepted by the grammar of its section, and holds its part of the
contents:

1. the number of names, and the names;
2. nothing, or the number of categories, and the categories, each with its values;
3. tables, each with its rows after its header;
4. tags, each with the metarules under it;
5. entries;
6. reductions. -/
structure Accepted (text : String) (c : Contents) : Prop where
  names : ∃ first lines, block text 0 = first :: lines ∧ Spells countOf first c.names.length ∧
    List.Forall₂ (Spells nameOf) lines c.names
  markers : (block text 1 = [] ∧ c.markers = []) ∨
    ∃ first lines, block text 1 = first :: lines ∧ Spells countOf first c.markers.length ∧
      Grouped categoryOf? IsCategory lines c.markers
  tables : Grouped tableOf? (fun table => List.Forall₂ (Spells (rowOf table)))
    (block text 2) c.tables
  rules : Grouped tagOf? RulesUnder (block text 3) c.rules
  entries : List.Forall₂ (Spells entryOf) (block text 4) c.entries
  reductions : List.Forall₂ (Spells reductionOf) (block text 5) c.reductions

/-- What becomes of each section on its own, and at last of a break after the sixth. -/
def outcomes (text : String) : List (Except Error Unit) :=
  [(readNames (firstStop text) (block text 0)).map fun _ => (),
    (readMarkers (block text 1)).map fun _ => (),
    (readTables (block text 2)).map fun _ => (),
    (readRules (block text 3)).map fun _ => (),
    ((block text 4).mapM (readAs entryOf)).map fun _ => (),
    ((block text 5).mapM (readAs reductionOf)).map fun _ => (),
    checkLast (breaks text)[5]?]

/-- The error is a fault on a line. -/
def OnLine (e : Error) : Prop :=
  ∃ line fault, e = .grammarFormat line fault

/-- The first section to fail fails with the error. -/
def FirstFailure (text : String) (e : Error) : Prop :=
  ∃ before after, outcomes text = before ++ .error e :: after ∧
    ∀ outcome ∈ before, outcome = .ok ()

section Acceptance

variable {α : Type} {spelled : List Char → Except FormatFault α}

theorem readAs_eq_ok {line : Line} {a : α} : readAs spelled line = .ok a ↔ Spells spelled line a :=
  mapError_eq_ok

theorem mapM_readAs_eq_ok {lines : List Line} {as : List α} :
    lines.mapM (readAs spelled) = .ok as ↔ List.Forall₂ (Spells spelled) lines as := by
  rw [mapM_eq_ok]
  simp only [readAs_eq_ok]

theorem readNames_eq_ok {stop : Nat} {block : List Line} {names : List (String × Bool)} :
    readNames stop block = .ok names ↔ ∃ first lines, block = first :: lines ∧
      Spells countOf first names.length ∧ List.Forall₂ (Spells nameOf) lines names := by
  rcases block with _ | ⟨first, lines⟩
  · simp [readNames]
  simp only [readNames, bind_eq_ok, readAs_eq_ok, mapM_readAs_eq_ok]
  constructor
  · rintro ⟨count, hcount, found, hfound, h⟩
    split_ifs at h with hsame
    obtain rfl := Except.ok.inj h
    exact ⟨first, lines, rfl, hsame ▸ hcount, hfound⟩
  · rintro ⟨_, _, hblock, hcount, hnames⟩
    obtain ⟨rfl, rfl⟩ := List.cons.inj hblock
    exact ⟨_, hcount, names, hnames, if_pos rfl⟩

theorem readMarkers_eq_ok {block : List Line} {categories : List MarkerCategory} :
    readMarkers block = .ok categories ↔ (block = [] ∧ categories = []) ∨
      ∃ first lines, block = first :: lines ∧ Spells countOf first categories.length ∧
        Grouped categoryOf? IsCategory lines categories := by
  rcases block with _ | ⟨first, lines⟩
  · simp [readMarkers, eq_comm]
  have hgroups : ∀ found, readGroups categoryOf? .valueBeforeCategory
      (fun name values => .ok (⟨name, values.map valueOf⟩ : MarkerCategory)) lines = .ok found ↔
        Grouped categoryOf? IsCategory lines found :=
    fun found => readGroups_eq_ok fun head rows group => by simp [IsCategory, eq_comm]
  simp only [readMarkers, bind_eq_ok, readAs_eq_ok, hgroups]
  constructor
  · rintro ⟨count, hcount, found, hfound, h⟩
    split_ifs at h with hsame
    obtain rfl := Except.ok.inj h
    exact .inr ⟨first, lines, rfl, hsame ▸ hcount, hfound⟩
  · rintro (⟨hempty, -⟩ | ⟨_, _, hblock, hcount, hcategories⟩)
    · cases hempty
    · obtain ⟨rfl, rfl⟩ := List.cons.inj hblock
      exact ⟨_, hcount, categories, hcategories, if_pos rfl⟩

theorem readTables_eq_ok {block : List Line} {tables : List (List Morphology)} :
    readTables block = .ok tables ↔
      Grouped tableOf? (fun table => List.Forall₂ (Spells (rowOf table))) block tables :=
  readGroups_eq_ok fun _ _ _ => mapM_readAs_eq_ok

theorem readRules_eq_ok {block : List Line} {rules : List (List Metarule)} :
    readRules block = .ok rules ↔ Grouped tagOf? RulesUnder block rules :=
  readGroups_eq_ok fun _ _ _ => by
    simp only [RulesUnder, bind_eq_ok, readAs_eq_ok, mapM_readAs_eq_ok]

theorem checkLast_eq_ok {line? : Option Line} : checkLast line? = .ok () ↔ line? = none := by
  cases line? <;> simp [checkLast]

theorem readSections_eq_ok {text : String} {c : Contents} :
    readSections text = .ok c ↔ (breaks text)[5]? = none ∧ Accepted text c := by
  constructor
  · intro h
    unfold readSections at h
    obtain ⟨names, hnames, h⟩ := bind_eq_ok.1 h
    obtain ⟨markers, hmarkers, h⟩ := bind_eq_ok.1 h
    obtain ⟨tables, htables, h⟩ := bind_eq_ok.1 h
    obtain ⟨rules, hrules, h⟩ := bind_eq_ok.1 h
    obtain ⟨entries, hentries, h⟩ := bind_eq_ok.1 h
    obtain ⟨reductions, hreductions, h⟩ := bind_eq_ok.1 h
    obtain ⟨⟨⟩, hlast, h⟩ := bind_eq_ok.1 h
    obtain rfl := Except.ok.inj h
    exact ⟨checkLast_eq_ok.1 hlast, readNames_eq_ok.1 hnames, readMarkers_eq_ok.1 hmarkers,
      readTables_eq_ok.1 htables, readRules_eq_ok.1 hrules, mapM_readAs_eq_ok.1 hentries,
      mapM_readAs_eq_ok.1 hreductions⟩
  · rintro ⟨hlast, h⟩
    unfold readSections
    rw [readNames_eq_ok.2 h.names, readMarkers_eq_ok.2 h.markers, readTables_eq_ok.2 h.tables,
      readRules_eq_ok.2 h.rules, mapM_readAs_eq_ok.2 h.entries, mapM_readAs_eq_ok.2 h.reductions,
      hlast]
    rfl

theorem readSections_eq_error {text : String} {e : Error} :
    readSections text = .error e ↔ FirstFailure text e := by
  have hall : (readSections text).map (fun _ => ()) =
      ((outcomes text).mapM id).map fun _ => () := by
    simp only [readSections, outcomes, List.mapM_cons, List.mapM_nil, id, map_eq_bind, bind_assoc,
      pure_bind]
  have hsame : readSections text = .error e ↔ (outcomes text).mapM id = .error e := by
    rw [← map_eq_error (f := fun _ => ()), hall, map_eq_error]
  rw [hsame, mapM_eq_error]
  constructor
  · rintro ⟨before, outcome, after, hsplit, hbefore, rfl⟩
    exact ⟨before, after, hsplit, fun o ho => (hbefore o ho).elim fun _ h => h⟩
  · rintro ⟨before, after, hsplit, hbefore⟩
    exact ⟨before, .error e, after, hsplit, fun o ho => ⟨(), hbefore o ho⟩, rfl⟩

end Acceptance

end PregroupGrammar.GrammarText
