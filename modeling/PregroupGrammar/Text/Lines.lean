/-!
# Lines, fields and parts of a text

A line ends at a line feed, and one carriage return in front of that line feed belongs to the line
end. A last line without a line feed counts when it is not empty, and keeps its characters.
-/

namespace PregroupGrammar.Text

/-- The line without the carriage return it may end with. -/
def dropReturn (line : List Char) : List Char :=
  if line.getLast? = some '\r' then line.dropLast else line

/-- The lines of a text, without their ends. -/
def lines (cs : List Char) : List (List Char) :=
  let parts := cs.splitOn '\n'
  parts.dropLast.map dropReturn ++ (parts.getLast?.filter (!·.isEmpty)).toList

/-- The lines of a text, numbered from 1. -/
def numberedLines (cs : List Char) : List (Nat × List Char) :=
  (lines cs).zipIdx.map fun (line, i) => (i + 1, line)

/-- The text in front of the given ending, if the text has that ending. -/
def beforeEnding? (ending cs : List Char) : Option (List Char) :=
  if ending.isSuffixOf cs then some (cs.take (cs.length - ending.length)) else none

/-- Whether `part` occurs as consecutive characters of the text. -/
def hasPart (part : List Char) : List Char → Bool
  | [] => part.isEmpty
  | c :: cs => part.isPrefixOf (c :: cs) || hasPart part cs

/-- The texts of `parts`, one after the other with `separator` between them. -/
def joinWith (separator : String) (parts : List String) : String :=
  separator.intercalate parts

end PregroupGrammar.Text
