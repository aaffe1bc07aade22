import PregroupGrammar.Text.CaseContext
import PregroupGrammar.Text.CaseMap

/-!
# Lower case

The full Unicode lower-casing of a text. Every character is replaced by its own lower-case form,
except that a capital sigma becomes a final sigma where it ends a word: a letter with case stands
before it and none after it, transparent characters between them not counting.
-/

namespace PregroupGrammar.Text

/-- The lower-case form of a character on its own. -/
def lowerChar (c : Char) : List Char :=
  if c = '\u0130' then ['i', '\u0307']
  else
    match caseRuns.find? (·.covers c.toNat) with
    | some run => [Char.ofNat (c.toNat + run.shift).toNat]
    | none => [c]

/-- Whether a letter with case comes first once the transparent characters are passed over. -/
def meetsCased (cs : List Char) : Bool :=
  ((cs.dropWhile isTransparent).head?.map isCased).getD false

/-- The lower-case form of the text `cs` that follows the characters `before`, nearest first. -/
def lowercaseAfter (before : List Char) : List Char → List Char
  | [] => []
  | c :: after =>
    (if c = 'Σ' ∧ meetsCased before ∧ ¬ meetsCased after then ['ς'] else lowerChar c) ++
      lowercaseAfter (c :: before) after

/-- The lower-case form of a text. -/
def lowercase (text : String) : String :=
  String.ofList (lowercaseAfter [] text.toList)

end PregroupGrammar.Text
