import PregroupGrammar.Json.Basic
import PregroupGrammar.Json.Token

/-!
# Writing JSON

The tokens of a value and their text, without blanks between them.
-/

namespace PregroupGrammar.Json

mutual

/-- The tokens of a value. A foreign value is written as a number that is not an integer. -/
def tokens : Json → List Token
  | null => [.null]
  | bool b => [.bool b]
  | int n => [.int n]
  | str s => [.quoted (some s)]
  | arr items => .openArr :: (tokensOfItems items ++ [.closeArr])
  | obj fields => .openObj :: (tokensOfFields fields ++ [.closeObj])
  | foreign => [.oddNumber]

/-- The tokens of array items, commas between them. -/
def tokensOfItems : List Json → List Token
  | [] => []
  | [j] => tokens j
  | j :: k :: items => tokens j ++ .comma :: tokensOfItems (k :: items)

/-- The tokens of object fields, commas between them. -/
def tokensOfFields : List (String × Json) → List Token
  | [] => []
  | [(key, j)] => .quoted (some key) :: .colon :: tokens j
  | (key, j) :: field :: fields =>
    .quoted (some key) :: .colon :: (tokens j ++ .comma :: tokensOfFields (field :: fields))

end

/-- The text of a value. -/
def text (j : Json) : String :=
  String.ofList (j.tokens.flatMap Token.spelling)

end PregroupGrammar.Json
