import PregroupGrammar.Json.Basic
import PregroupGrammar.Json.Token

/-!
# Reading JSON

A value is built from its tokens one at a time. What has been read so far is kept as the arrays and
objects that are still open, innermost first, together with what may come next.
-/

namespace PregroupGrammar.Json

/-- An array or object that is still open, with what it holds so far, last first. An object also has
the key whose value is being read. -/
inductive Level where
  | arr (items : List Json)
  | obj (fields : List (Option String × Json)) (key : Option String)

/-- What may come next. -/
inductive Expecting where
  | value (around : List Level)
  | firstItem (around : List Level)
  | firstKey (around : List Level)
  | nextKey (fields : List (Option String × Json)) (around : List Level)
  | colon (fields : List (Option String × Json)) (key : Option String) (around : List Level)
  | moreItems (items : List Json) (around : List Level)
  | moreFields (fields : List (Option String × Json)) (around : List Level)
  | nothing (j : Json)

namespace Expecting

/-- A whole value has been read. -/
def take (j : Json) : List Level → Expecting
  | [] => .nothing j
  | .arr items :: around => .moreItems (j :: items) around
  | .obj fields key :: around => .moreFields ((key, j) :: fields) around

/-- The object with these fields, last first. A key that is no text makes it foreign. -/
def closeObj (fields : List (Option String × Json)) : Json :=
  match fields.reverse.mapM fun (key, j) => key.map (·, j) with
  | some fields => .obj fields
  | none => .foreign

/-- A token where a value must start. -/
def start? (around : List Level) : Token → Option Expecting
  | .openArr => some (.firstItem around)
  | .openObj => some (.firstKey around)
  | .null => some (take .null around)
  | .bool b => some (take (.bool b) around)
  | .int n => some (take (.int n) around)
  | .oddNumber => some (take .foreign around)
  | .quoted (some text) => some (take (.str text) around)
  | .quoted none => some (take .foreign around)
  | _ => none

/-- One token read. -/
def step? : Expecting → Token → Option Expecting
  | .value around, token => start? around token
  | .firstItem around, .closeArr => some (take (.arr []) around)
  | .firstItem around, token => start? (.arr [] :: around) token
  | .firstKey around, .closeObj => some (take (.obj []) around)
  | .firstKey around, .quoted key => some (.colon [] key around)
  | .nextKey fields around, .quoted key => some (.colon fields key around)
  | .colon fields key around, .colon => some (.value (.obj fields key :: around))
  | .moreItems items around, .comma => some (.value (.arr items :: around))
  | .moreItems items around, .closeArr => some (take (.arr items.reverse) around)
  | .moreFields fields around, .comma => some (.nextKey fields around)
  | .moreFields fields around, .closeObj => some (take (closeObj fields) around)
  | _, _ => none

end Expecting

/-- The value that a list of tokens spells. -/
def ofTokens? (tokens : List Token) : Option Json :=
  match tokens.foldlM Expecting.step? (.value []) with
  | some (.nothing j) => some j
  | _ => none

/-- The value that a text spells. -/
def ofText? (text : String) : Option Json :=
  (Token.scan? text.toList).bind ofTokens?

end PregroupGrammar.Json
