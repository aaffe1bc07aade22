import PregroupGrammar.Grammar.Basic

/-!
# Drafts of a grammar

A draft collects the parts of a grammar in any order. Building the grammar compiles the reduction
table, checks that every type name in use is declared, expands each entry by the metarules and sorts
the dictionary.
-/

namespace PregroupGrammar

/-- The parts of a grammar to be, each in the order in which it was given. -/
structure Draft where
  settings : GrammarSettings := {}
  inventory : List String := []
  standalones : List String := []
  markers : List MarkerCategory := []
  reductions : List (String × String) := []
  metarules : List Metarule := []
  entries : List Entry := []
  morphology : Morphology := {}
deriving DecidableEq

namespace Draft

/-- Declares an atom type. -/
def atomType (d : Draft) (name : String) : Draft :=
  { d with inventory := d.inventory ++ [name] }

/-- Marks an atom type as standalone. -/
def standalone (d : Draft) (name : String) : Draft :=
  { d with standalones := d.standalones ++ [name] }

/-- Declares an atom type and marks it as standalone. -/
def standaloneType (d : Draft) (name : String) : Draft :=
  (d.atomType name).standalone name

/-- Declares a marker category with its values. -/
def markerCategory (d : Draft) (name : String) (values : List String) : Draft :=
  { d with markers := d.markers ++ [⟨name, values⟩] }

/-- Lets one atom type reduce to another. -/
def reduction (d : Draft) (source target : String) : Draft :=
  { d with reductions := d.reductions ++ [(source, target)] }

/-- Adds a metarule. -/
def metarule (d : Draft) (rule : Metarule) : Draft :=
  { d with metarules := d.metarules ++ [rule] }

/-- Adds a dictionary entry, unless its word has one already. -/
def entry (d : Draft) (word : String) (types : List WordType) : Draft :=
  if d.entries.any (·.word == word) then d
  else { d with entries := d.entries ++ [⟨word, types⟩] }

/-- Fails with the first standalone type that is not declared. -/
def checkStandalones (table : ReductionTable) (standalones : List String) : Except Error Unit :=
  match standalones.find? (· ∉ table.inventory) with
  | some name => .error (.unknownStandalone name)
  | none => .ok ()

/-- Fails with the first atom whose type the table does not know. -/
def checkAtoms (table : ReductionTable) (atoms : List Atom) : Except Error Unit :=
  atoms.forM fun a => (table.indexOf a.name).map fun _ => ()

/-- The concrete atoms of a metarule, pattern first. -/
def concreteAtoms (rule : Metarule) : List Atom :=
  (rule.pattern.atoms ++ rule.target.atoms).filter (!·.isGeneric)

/-- The entry with the types that the metarules derive, if all its atoms are known. -/
def expandEntry (table : ReductionTable) (rules : List Metarule) (iteration : Iteration)
    (entry : Entry) : Except Error Entry := do
  checkAtoms table (entry.types.flatMap WordType.atoms)
  return { entry with types := (expand rules iteration entry.types).1 }

/-- Builds the grammar. -/
def build (d : Draft) : Except Error Grammar := do
  let table ← ReductionTable.make d.inventory d.settings.dummyType d.reductions
  checkStandalones table d.standalones
  checkAtoms table (d.metarules.flatMap concreteAtoms)
  let entries ← d.entries.mapM (expandEntry table d.metarules d.settings.iteration)
  return {
    table
    standalones := d.standalones
    markers := d.markers
    metarules := d.metarules
    lexicon := Lexicon.ofEntries Text.lowercase entries
    morphology := d.morphology
    settings := d.settings }

end Draft

end PregroupGrammar
