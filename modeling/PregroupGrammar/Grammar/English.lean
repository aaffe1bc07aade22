import PregroupGrammar.Grammar.Reader

/-!
# A small English grammar

Proper and common nouns, determiners, adjectives, and verbs that take no object, an object or a
sentence; and a few sentences to try it on.
-/

namespace PregroupGrammar.Grammar

/-- The text of the English grammar. -/
def englishText : String :=
  Text.joinWith "\n"
    ["3", "#s", "n", "pn",
      "**********",
      "1", "number", "#singular", "#plural",
      "**********",
      "#Verbs:", "ed", "s", "#Nouns:", "s", "#Adjectives:", "er", "#Irregulars:", "ran>run",
      "**********",
      "1:", "*X^1 s^0 n^-1<*X^1 s^0",
      "**********",
      "Alice:pn^0", "Bob:pn^0", "Charlie:pn^0",
      "dog:n_1^0", "cat:n_1^0", "book:n_1^0",
      "the:n^0 n^-1", "a:n_1^0 n_1^-1",
      "big:n^0 n^-1", "small:n^0 n^-1",
      "run:n^1 s^0", "sleep:n^1 s^0",
      "see:n^1 s^0 n^-1", "love:n^1 s^0 n^-1", "eat:n^1 s^0 n^-1",
      "think:n^1 s^0 s^-1",
      "**********",
      "pn^0<n^0"]

/-- The English grammar, with the usual settings. -/
def english : Except Error Grammar :=
  ofText {} englishText

/-- A few English sentences, some of which the grammar does not accept. -/
def demoCorpus : String :=
  Text.joinWith "\n"
    ["Alice runs.", "The dog sees Alice.", "Alice thinks Bob runs!", "", "Bob eats.", "Alice ran",
      "big dogs sleep", "sees Alice Bob", "Alice frobs"]

end PregroupGrammar.Grammar
