import PregroupGrammar.KeyedList
import PregroupGrammar.WordType

/-!
# Dictionaries

A dictionary holds entries sorted by a key of their word, entries with equal keys in the order in
which they were given. Looking a key up finds the first entry that has it.
-/

namespace PregroupGrammar

/-- A dictionary entry: a word and the types it may have, in order of preference. -/
structure Entry where
  word : String
  types : List WordType
deriving DecidableEq, Repr

namespace Entry

/-- The text of an entry. -/
def text (entry : Entry) : String :=
  entry.word ++ ": " ++ Text.joinWith ", " (entry.types.map WordType.text)

end Entry

/-- A dictionary: entries with their keys, sorted by key. -/
structure Lexicon where
  keyed : KeyedList Entry
deriving DecidableEq, Repr

namespace Lexicon

/-- The dictionary of the entries, under the key of each entry's word. -/
def ofEntries (key : String → String) (entries : List Entry) : Lexicon :=
  ⟨.ofPairs ((entries.map fun entry => (key entry.word, entry)).mergeSort fun a b => a.1 ≤ b.1)⟩

/-- The entries, sorted. -/
def entries (lexicon : Lexicon) : List Entry :=
  lexicon.keyed.pairs.map Prod.snd

/-- The first entry with the key. -/
def find? (lexicon : Lexicon) (key : String) : Option Entry :=
  lexicon.keyed.find? key

end Lexicon

end PregroupGrammar
